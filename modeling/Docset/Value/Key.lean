/-
  Loose values as keys of tables.

  Keys of tables are values without parts.  They are told apart by what they mean and not by
  how they are written: a number is one key whether it is whole or real, yes and no are the numbers
  one and zero, and two times are one key if they are the same moment.
-/
import Docset.Decimal.Shortest
import Docset.Value

namespace Docset

/-- Whether a real number is a given whole one. -/
def isWhole (x : Float) (n : Int) : Bool :=
  if x.isNaN || x.isInf then false
  else
    match Binary64.ofFloat x with
    | none => n == 0
    | some b =>
      let size := Decimal.onGrid b.mantissa b.exponent 0
      (Binary64.isNegative x == decide (n < 0)) && size.1 == n.natAbs * size.2

/-- Whether two times are the same moment; one with an offset never is one without. -/
def sameMoment (d e : Day) (t u : Clock) : Bool :=
  let minutes (d : Day) (t : Clock) : Int := (d.ordinal * 24 + t.hour) * 60 + t.minute
  t.second == u.second && t.micro == u.micro
    && (match t.offset, u.offset with
        | some a, some b => minutes d t - a == minutes e u - b
        | none, none => minutes d t == minutes e u
        | _, _ => false)

namespace Value

/-- The whole number that the value counts as. -/
def asWhole : Value → Option Int
  | flag b => some (if b then 1 else 0)
  | whole n => some n
  | _ => none

/-- Whether two values are the same key. -/
def sameKey : Value → Value → Bool
  | null, null => true
  | real x, real y => x == y || (x.isNaN && y.isNaN)
  | real x, v => v.asWhole.any (isWhole x)
  | v, real x => v.asWhole.any (isWhole x)
  | day d, day e => d == e
  | moment d t, moment e u => sameMoment d e t u
  | text s, text t => s == t
  | bytes b, bytes c => b == c
  | v, w => v.asWhole.isSome && v.asWhole == w.asWhole

/-- The rows with a value under a key: in the place of the key if it is there, else at the end. -/
def putRow (rows : List (Value × Value)) (k v : Value) : List (Value × Value) :=
  match rows with
  | [] => [(k, v)]
  | (k', v') :: rest => if k'.sameKey k then (k', v) :: rest else (k', v') :: putRow rest k v

/-- The table of some rows; of two rows with one key the later value counts. -/
def tableOf (rows : List (Value × Value)) : Value :=
  table (rows.foldl (fun t r => putRow t r.1 r.2) [])

/-- The value under a word in a table. -/
def field (v : Value) (word : String) : Option Value :=
  match v with
  | table rows => (rows.find? fun r => r.1.sameKey (text word)).map Prod.snd
  | _ => none

end Value

end Docset
