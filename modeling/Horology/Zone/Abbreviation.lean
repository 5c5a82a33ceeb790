/-!
# Zone abbreviations

Some abbreviations of zones are understood in any session, each for one offset.  They come after the
abbreviations of the session's own zone, which may give the same letters another offset.

## Main definitions

* `zoneAbbreviations`, `abbreviationOffset?` — the abbreviations and their offsets.
-/

namespace Horology

/-- Abbreviations that are understood whatever the session zone, in lower case, with their offsets
in seconds east of UTC. -/
def zoneAbbreviations : List (String × Int) :=
  [("utc", 0), ("ut", 0), ("gmt", 0), ("z", 0), ("zulu", 0), ("wet", 0), ("west", 3600),
    ("bst", 3600), ("cet", 3600), ("met", 3600), ("cest", 7200), ("mest", 7200), ("eet", 7200),
    ("eest", 10800), ("msk", 10800), ("jst", 32400), ("kst", 32400), ("awst", 28800),
    ("acst", 34200), ("aest", 36000), ("aedt", 39600), ("nzst", 43200), ("nzdt", 46800),
    ("ast", -14400), ("adt", -10800), ("est", -18000), ("edt", -14400), ("cst", -21600),
    ("cdt", -18000), ("mst", -25200), ("mdt", -21600), ("pst", -28800), ("pdt", -25200),
    ("akst", -32400), ("akdt", -28800), ("hst", -36000)]

/-- The offset that an abbreviation in lower case stands for in any session. -/
def abbreviationOffset? (abbreviation : String) : Option Int :=
  zoneAbbreviations.lookup abbreviation

end Horology
