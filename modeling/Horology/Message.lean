import Horology.Error
import Horology.TimeRange.Basic

/-!
# Binary messages

In a message a moment or a span is its word, most significant byte first, and a range is the word of
its status followed by those of its endpoints.  A reader takes bytes from the front of a message; a
failed one leaves consumed what it had taken before it failed.

## Main definitions

* `Message.Reader` — readers of a message.
* `Message.word`, `Message.moment`, `Message.span`, `Message.range` — the reader of each type.
* `Message.ofWord`, `Moment.toBytes`, `Span.toBytes`, `TimeRange.toBytes` — the writers.
-/

namespace Horology

namespace Message

/-- A reader takes a value from the front of a message, or fails, and leaves the rest. -/
abbrev Reader (α : Type) := ExceptT Error (StateM (List UInt8)) α

/-- What a reader makes of a message, and the bytes it leaves. -/
def Reader.on {α : Type} (reader : Reader α) (bytes : List UInt8) :
    Except Error α × List UInt8 := StateT.run (ExceptT.run reader) bytes

/-- The word of four bytes, the most significant first. -/
def wordOf (a b c d : UInt8) : Int32 :=
  (a.toUInt32 <<< 24 ||| b.toUInt32 <<< 16 ||| c.toUInt32 <<< 8 ||| d.toUInt32).toInt32

/-- The four bytes of a word, the most significant first. -/
def ofWord (w : Int32) : List UInt8 :=
  let u := w.toUInt32
  [(u >>> 24).toUInt8, (u >>> 16).toUInt8, (u >>> 8).toUInt8, u.toUInt8]

/-- The reader of a word; a message of fewer than four bytes is left as it is. -/
def word : Reader Int32 := do
  match ← get with
  | a :: b :: c :: d :: rest =>
    set rest
    return wordOf a b c d
  | short => throw (.shortMessage 4 short.length)

/-- The reader of a moment. -/
def moment : Reader Moment := do return .ofRaw (← word)

/-- The reader of a span. -/
def span : Reader Span := do return .ofRaw (← word)

/-- The reader of a range; its status is compared with its endpoints when all are read. -/
def range : Reader TimeRange := do
  let status ← word
  let first ← moment
  let last ← moment
  match TimeRange.ofParts? status first last with
  | some r => return r
  | none => throw (.badStatus status)

end Message

/-- The message of a moment. -/
def Moment.toBytes (t : Moment) : List UInt8 := Message.ofWord t.raw

/-- The message of a span. -/
def Span.toBytes (s : Span) : List UInt8 := Message.ofWord s.raw

/-- The message of a range. -/
def TimeRange.toBytes (r : TimeRange) : List UInt8 :=
  Message.ofWord r.status.raw ++ r.first.toBytes ++ r.last.toBytes

end Horology
