/-
# The Go string helpers the scheduler set relies on

`schedulerset` classifies and orders peers with three calls into Go's standard library:
`strings.HasPrefix` (is a peer a relay?), `strings.Compare` (the tail of `podNameSort`) and
the 32-bit FNV-1 hash of `hash/fnv` (`GetTargetForScoring`).  `RelayPod` adds a fourth,
`strconv.Itoa`, which turns a scheduler index into its `clientCache` key.  A Go `string` is a byte
sequence and the model's `String` a sequence of code points; UTF-8 preserves prefixes and
the lexicographic order, so comparing code point lists is comparing the bytes.

The later modules use `stringsCompare` only through three facts: it is zero exactly on equal
names (`stringsCompare_eq_zero`), it is antisymmetric (`stringsCompare_swap`) and its strict
part is transitive (`stringsCompare_trans`).
-/
import Mathlib.Data.Char
import Mathlib.Order.Basic

namespace DistScheduler

/-! ## 1. `strings.HasPrefix` -/

/-- `strings.HasPrefix(s, prefix)`. -/
def stringsHasPrefix (s pre : String) : Bool := pre.data.isPrefixOf s.data

theorem stringsHasPrefix_iff {s pre : String} :
    stringsHasPrefix s pre = true ↔ pre.data <+: s.data := by
  simp [stringsHasPrefix]

/-! ## 2. `strings.Compare` -/

/-- Lexicographic comparison of code point lists, with Go's results `-1`, `0`, `1`. -/
def compareChars : List Char → List Char → Int
  | [], [] => 0
  | [], _ :: _ => -1
  | _ :: _, [] => 1
  | a :: as, b :: bs => if a < b then -1 else if b < a then 1 else compareChars as bs

/-- `strings.Compare(a, b)`. -/
def stringsCompare (a b : String) : Int := compareChars a.data b.data

theorem compareChars_eq_zero : ∀ {a b : List Char}, compareChars a b = 0 ↔ a = b
  | [], [] => by simp [compareChars]
  | [], _ :: _ => by simp [compareChars]
  | _ :: _, [] => by simp [compareChars]
  | x :: xs, y :: ys => by
    rcases lt_trichotomy x y with h | rfl | h
    · simp [compareChars, h, h.ne]
    · simp [compareChars, compareChars_eq_zero]
    · simp [compareChars, h, h.ne', not_lt_of_gt h]

theorem compareChars_swap : ∀ a b : List Char, compareChars b a = - compareChars a b
  | [], [] => rfl
  | [], _ :: _ => rfl
  | _ :: _, [] => rfl
  | x :: xs, y :: ys => by
    rcases lt_trichotomy x y with h | rfl | h
    · simp [compareChars, h, not_lt_of_gt h]
    · simp [compareChars, compareChars_swap xs ys]
    · simp [compareChars, h, not_lt_of_gt h]

theorem compareChars_trans : ∀ {a b c : List Char},
    compareChars a b < 0 → compareChars b c < 0 → compareChars a c < 0
  | [], _, [], _, h2 => by cases ‹List Char› <;> simp [compareChars] at h2
  | [], _, _ :: _, _, _ => by simp [compareChars]
  | _ :: _, [], _, h1, _ => by simp [compareChars] at h1
  | _ :: _, _ :: _, [], _, h2 => by simp [compareChars] at h2
  | x :: xs, y :: ys, z :: zs, h1, h2 => by
    rcases lt_trichotomy x y with hxy | rfl | hxy
    · rcases lt_trichotomy x z with hxz | rfl | hxz
      · simp [compareChars, hxz]
      · rcases lt_trichotomy y x with h | rfl | h
        · exact absurd (h.trans hxy) (lt_irrefl _)
        · exact absurd hxy (lt_irrefl _)
        · simp [compareChars, h, not_lt_of_gt h] at h2
      · rcases lt_trichotomy y z with h | rfl | h
        · exact absurd ((hxy.trans h).trans hxz) (lt_irrefl _)
        · exact absurd (hxy.trans hxz) (lt_irrefl _)
        · simp [compareChars, h, not_lt_of_gt h] at h2
    · rcases lt_trichotomy x z with hxz | rfl | hxz
      · simp [compareChars, hxz]
      · simp only [compareChars, lt_irrefl, if_false] at h1 h2 ⊢
        exact compareChars_trans h1 h2
      · simp [compareChars, hxz, not_lt_of_gt hxz] at h2
    · simp [compareChars, hxy, not_lt_of_gt hxy] at h1

theorem stringsCompare_eq_zero {a b : String} : stringsCompare a b = 0 ↔ a = b := by
  rw [stringsCompare, compareChars_eq_zero, String.ext_iff]

theorem stringsCompare_swap (a b : String) : stringsCompare b a = - stringsCompare a b :=
  compareChars_swap a.data b.data

theorem stringsCompare_trans {a b c : String} (h1 : stringsCompare a b < 0)
    (h2 : stringsCompare b c < 0) : stringsCompare a c < 0 :=
  compareChars_trans h1 h2

/-! ## 3. `hash/fnv` -/

/-- `[]byte(s)`: the UTF-8 bytes of a Go string. -/
def goBytes (s : String) : List UInt8 := s.data.flatMap String.utf8EncodeChar

/-- `fnv.New32()`, then `Write(bytes)`, then `Sum32()`: 32-bit FNV-1, which multiplies by
the prime before it folds in each byte. -/
def fnv32Sum (bytes : List UInt8) : UInt32 :=
  bytes.foldl (fun h b => (h * 16777619) ^^^ b.toUInt32) 2166136261

/-! ## 4. `strconv.Itoa` -/

/-- `strconv.Itoa(i)`: decimal digits, with a `-` in front of a negative value. -/
def strconvItoa (i : Int) : String := toString i

end DistScheduler
