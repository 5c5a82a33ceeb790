import Horology.Proofs.Duration.Layout
import Horology.Proofs.Word
import Horology.Span.Text

/-!
# Texts of spans are read back

A span of any word, the reserved one included, is written as the duration of its seconds; that
duration is one of those that the layouts show without loss, and it adds up to the word again.

## Main definitions

* `Duration.ofSeconds_neg` — the fields of an opposite number are the opposite fields.
* `Duration.isWhole_ofSeconds` — the fields of a number of seconds are written without loss.
* `Span.read_writeIn` — the round trip.
-/

namespace Horology

namespace Duration

/-- The fields of the opposite of a number of seconds are the opposites of its fields. -/
theorem ofSeconds_neg (n : Int) : ofSeconds (-n) = (ofSeconds n).opposite := by
  simp [ofSeconds, opposite, Int.neg_tdiv, Int.neg_tmod]

/-- The fields of a number of seconds are those of a duration that is written without loss. -/
theorem isWhole_ofSeconds {n : Int} (hn : n.natAbs ≤ 9223372036854775807) :
    (ofSeconds n).IsWhole := by
  -- A negative number has the opposite fields of a positive one.
  have hnonneg {m : Int} (h0 : 0 ≤ m) (hm : m.natAbs ≤ 9223372036854775807) :
      (ofSeconds m).IsWhole := by
    have hmod {a b : Int} (ha : 0 ≤ a) (hb : 0 < b) :
        Int.tdiv a b = a / b ∧ Int.tmod a b = a % b ∧ 0 ≤ a % b :=
      ⟨Int.tdiv_eq_ediv_of_nonneg ha, Int.tmod_eq_emod_of_nonneg ha,
        Int.emod_nonneg a (by omega)⟩
    obtain ⟨hyear, hyear', h1⟩ := hmod h0 (show 0 < secondsPerYear by decide)
    obtain ⟨hmonth, hmonth', h2⟩ := hmod h1 (show 0 < secondsPerMonth by decide)
    obtain ⟨hday, hday', h3⟩ := hmod h2 (show 0 < secondsPerDay by decide)
    obtain ⟨hhour, hhour', h4⟩ := hmod h3 (show (0 : Int) < 3600 by decide)
    obtain ⟨hminute, hminute', h5⟩ := hmod h4 (show (0 : Int) < 60 by decide)
    have hfields : ofSeconds m = Duration.mk (m / secondsPerYear)
        (m % secondsPerYear / secondsPerMonth)
        (m % secondsPerYear % secondsPerMonth / secondsPerDay)
        (m % secondsPerYear % secondsPerMonth % secondsPerDay / 3600)
        (m % secondsPerYear % secondsPerMonth % secondsPerDay % 3600 / 60)
        (m % secondsPerYear % secondsPerMonth % secondsPerDay % 3600 % 60) 0 := by
      simp only [ofSeconds, hyear, hyear', hmonth, hmonth', hday, hday', hhour, hhour', hminute,
        hminute']
    rw [hfields]
    simp only [secondsPerYear, secondsPerMonth, secondsPerDay]
    constructor
    · constructor <;> dsimp only <;> omega
    · rfl
    · dsimp only
      omega
    · dsimp only
      omega
    · dsimp only
      omega
  by_cases h0 : 0 ≤ n
  · exact hnonneg h0 hn
  · have hopposite := (hnonneg (show 0 ≤ -n by omega) (by omega)).opposite
    rwa [ofSeconds_neg, opposite_opposite] at hopposite

end Duration

namespace Span

/-- The span of a text that is read as a duration. -/
theorem read_of_delta {text : String} {d : Duration}
    (h : Duration.read text.toList = .ok (.delta d)) :
    read text = match word? d.totalSeconds with
      | some n => .ok (ofRaw n)
      | none => .error (.spanOutOfRange text) := by
  cases hword : word? d.totalSeconds with
  | none => simp only [read, h, hword]
  | some n => simp only [read, h, hword]

/-- A text with too large a number in it is no span. -/
theorem read_of_overflow {text : String} (h : Duration.read text.toList = .error .overflow) :
    read text = .error (.spanOutOfRange text) := by
  rw [read, h]
  rfl

/-- The span of a duration is that of the word of its length. -/
theorem exists_word_of_read {text : String} {d : Duration} {s : Span}
    (h : Duration.read text.toList = .ok (.delta d)) (hs : read text = .ok s) :
    ∃ w, word? d.totalSeconds = some w ∧ ofRaw w = s := by
  rw [read_of_delta h] at hs
  cases hword : word? d.totalSeconds with
  | none => simp [hword] at hs
  | some w => exact ⟨w, rfl, by simpa [hword] using hs⟩

theorem natAbs_toInt_le (w : Int32) : w.toInt.natAbs ≤ 9223372036854775807 := by
  have hword := Word.toInt_mem w
  omega

/-- The fields of the seconds of a span are read back from its text. -/
theorem read_duration_writeIn (style : SpanStyle) (s : Span) :
    Duration.read (s.writeIn style).toList = .ok (.delta (Duration.ofSeconds s.raw.toInt)) := by
  rw [writeIn, String.toList_ofList]
  exact Duration.read_write (Duration.isWhole_ofSeconds (natAbs_toInt_le _)) style

/-- A span is read back from its text in any style as the span of its word. -/
theorem read_writeIn (style : SpanStyle) (s : Span) :
    read (s.writeIn style) = .ok (ofRaw s.raw) := by
  rw [read, read_duration_writeIn]
  simp only [Duration.totalSeconds_ofSeconds, word?_toInt]

/-- **The span of any word is read back from its text in the style of any session.**  Its
designators are no phrase, and never a phrase with too large a number, so that the second grammar
gets to read them. -/
theorem read_write_ofRaw (raw : Int32) (settings : Settings) :
    read ((ofRaw raw).write settings) = .ok (ofRaw raw) ∧
      DurationPhrase.read ((ofRaw raw).writeIn .iso8601).toList = .error .badFormat := by
  constructor
  · rw [write, read_writeIn, raw_ofRaw]
  · rw [writeIn, String.toList_ofList]
    exact Duration.read_phrase_writeIso (Duration.isWhole_ofSeconds (natAbs_toInt_le _))

end Span

end Horology
