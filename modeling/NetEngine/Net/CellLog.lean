import Mathlib.Data.List.Basic

/-!
# Log lines

`StringFromVAList` of cell_log.cpp formats into a buffer and tries again with a
larger one while the text does not fit.  `vsnprintf` is the one of C99: it
writes at most `len - 1` characters and a NUL, and returns the length of the
whole text.

The loop compares that length with the size of the buffer and does not count
the NUL: a text of exactly 256 characters passes for one that fits in the first
buffer of 256, and its last character is overwritten.  Every other text below
65533 characters comes out as it is.
-/

namespace NetEngine
namespace Net

/-- Characters of a `std::string`. -/
abbrev Text :=
  List UInt8

/-- `vsnprintf` into the beginning of a buffer, for a format result. -/
def vsnprintf (buffer : Text) (len : Nat) (result : Text) : Text × Int :=
  let written := if len = 0 then [] else result.take (len - 1) ++ [0]
  (written ++ buffer.drop written.length, result.length)

/-- `std::string::resize`: new characters are NUL. -/
def resize (out : Text) (len : Nat) : Text :=
  out.take len ++ List.replicate (len - out.length) 0

/-- How `StringFromVAList` ends. -/
inductive LogOutcome where
  | returned (out : Text)
  | assertion
  /-- `erase` throws at a position behind the end. -/
  | outOfRange
deriving DecidableEq

/-- The loop, while `ret` is negative; nothing if it is still running. -/
def formatLoop (result : Text) : Nat → Nat → Text → Option LogOutcome
  | 0, _, _ => none
  | fuel + 1, len₀, out₀ =>
      let len₁ := len₀ * 2
      let r := vsnprintf (resize out₀ len₁) len₁ result
      let long := r.2 > len₁
      let len := if long then (r.2 / 2).toNat + 1 else len₁
      let ret := if long then -1 else r.2
      if ¬ len < 65535 then some .assertion
      else if ret < 0 then formatLoop result fuel len r.1
      else if ret.toNat ≤ r.1.length then some (.returned (r.1.take ret.toNat))
      else some .outOfRange

/-- `StringFromVAList`, for so many rounds of its loop. -/
def stringFromVAList (fuel : Nat) (out result : Text) : Option LogOutcome :=
  formatLoop result fuel 128 out

/-- It terminates, holds its assertion, and sets `out` to the format result. -/
def Lossless (out result : Text) : Prop :=
  ∃ fuel, stringFromVAList fuel out result = some (.returned result)

section Buffers

theorem resize_length (out : Text) (len : Nat) :
    (resize out len).length = len := by
  rw [resize, List.length_append, List.length_take, List.length_replicate]
  omega

/-- A text and its NUL that fit are written whole. -/
theorem vsnprintf_take
    (buffer : Text) {result : Text} {len : Nat} (hfits : result.length < len) :
    (vsnprintf buffer len result).1.take result.length = result := by
  have htake : result.take (len - 1) = result :=
    List.take_of_length_le (by omega)
  rw [vsnprintf, if_neg (by omega), htake, List.append_assoc,
    List.take_left]

theorem vsnprintf_length
    {buffer : Text} (result : Text) {len : Nat} (hbuffer : buffer.length = len)
    (hlen : 0 < len) :
    (vsnprintf buffer len result).1.length = len := by
  rw [vsnprintf, if_neg (by omega)]
  simp
  omega

end Buffers

section Rounds

variable {result out : Text} {len fuel : Nat}

/-- A round in which the text is not longer than the buffer is the last. -/
theorem formatLoop_short
    (hshort : result.length ≤ len * 2) (hpos : 0 < len)
    (hlen : len * 2 < 65535) :
    formatLoop result (fuel + 1) len out =
      some (.returned
        ((vsnprintf (resize out (len * 2)) (len * 2) result).1.take
          result.length)) := by
  have hbuffer := vsnprintf_length result (resize_length out (len * 2))
    (by omega)
  have hret : (vsnprintf (resize out (len * 2)) (len * 2) result).2 =
      result.length := rfl
  have hlong : ¬ (result.length : Int) > (len * 2 : Nat) := by
    omega
  have hnonneg : ¬ (result.length : Int) < 0 := by
    omega
  have herase : (result.length : Int).toNat ≤
      (vsnprintf (resize out (len * 2)) (len * 2) result).1.length := by
    rw [hbuffer, Int.toNat_natCast]
    exact hshort
  simp only [formatLoop, hret, if_neg hlong, hlen, if_neg hnonneg,
    if_pos herase, not_true_eq_false, if_false]
  rw [Int.toNat_natCast]

/-- A text and its NUL that fit come out whole. -/
theorem formatLoop_fits
    (hfits : result.length < len * 2) (hlen : len * 2 < 65535) :
    formatLoop result (fuel + 1) len out = some (.returned result) := by
  rw [formatLoop_short (by omega) (by omega) hlen, vsnprintf_take _ hfits]

/-- A text of exactly the size of the buffer loses its last character. -/
theorem formatLoop_exact
    (hexact : result.length = len * 2) (hpos : 0 < len)
    (hlen : len * 2 < 65535) :
    formatLoop result (fuel + 1) len out =
      some (.returned (result.take (len * 2 - 1) ++ [0])) := by
  have hwritten : (result.take (len * 2 - 1) ++ [(0 : UInt8)]).length =
      result.length := by
    rw [List.length_append, List.length_take, List.length_singleton]
    omega
  rw [formatLoop_short (by omega) hpos hlen, vsnprintf, if_neg (by omega)]
  dsimp only
  rw [← hwritten, List.take_left]

/-- A longer text gets a buffer that it fits in. -/
theorem formatLoop_long
    (hlong : len * 2 < result.length) (hlen : result.length < 65533) :
    formatLoop result (fuel + 2) len out = some (.returned result) := by
  have hret : (vsnprintf (resize out (len * 2)) (len * 2) result).2 =
      result.length := rfl
  have hgrow : (result.length : Int) > (len * 2 : Nat) := by
    omega
  have hhalf : ((result.length : Int) / 2).toNat = result.length / 2 := by
    omega
  have hassert : result.length / 2 + 1 < 65535 := by
    omega
  rw [formatLoop]
  simp only [hret, if_pos hgrow, hhalf, hassert, not_true_eq_false, if_false,
    Int.reduceNeg, Int.reduceLT, if_true]
  exact formatLoop_fits (by omega) (by omega)

end Rounds

/-- What is written over the last character of 256 is a NUL. -/
theorem lossless_exact_iff
    {result : Text} (h : result.length = 256) (out : Text) :
    Lossless out result ↔ result.getLast? = some 0 := by
  have hround : ∀ fuel, stringFromVAList (fuel + 1) out result =
      some (.returned (result.take 255 ++ [0])) := fun fuel =>
    formatLoop_exact h (by omega) (by omega)
  constructor
  · rintro ⟨fuel, hrun⟩
    cases fuel with
    | zero =>
        cases hrun
    | succ fuel =>
        rw [hround, Option.some.injEq, LogOutcome.returned.injEq] at hrun
        rw [← hrun, List.getLast?_concat]
  · intro hlast
    refine ⟨1, ?_⟩
    have hsplit := List.dropLast_append_getLast? 0 hlast
    rw [List.dropLast_eq_take, h] at hsplit
    rw [hround, hsplit]

/--
`StringFromVAList` is lossless on a format result below 65533 characters exactly
when its length is not 256, or its last character is itself a NUL.
-/
theorem logFormat_lossless_iff
    {result : Text} (h : result.length < 65533) (out : Text) :
    Lossless out result ↔
      (result.length = 256 → result.getLast? = some 0) := by
  rcases Nat.lt_trichotomy result.length 256 with hlt | heq | hgt
  · have hlossless : Lossless out result :=
      ⟨1, formatLoop_fits hlt (by omega)⟩
    exact ⟨fun _ hlen => absurd hlen (by omega), fun _ => hlossless⟩
  · rw [lossless_exact_iff heq out]
    exact ⟨fun hlast _ => hlast, fun hlast => hlast heq⟩
  · have hlossless : Lossless out result :=
      ⟨2, formatLoop_long hgt h⟩
    exact ⟨fun _ hlen => absurd hlen (by omega), fun _ => hlossless⟩

/-- A text of 300 characters takes a second round. -/
theorem logFormat_lossless_long : Lossless [] (List.replicate 300 65) := by
  have hlength : (List.replicate 300 (65 : UInt8)).length = 300 :=
    List.length_replicate
  apply (logFormat_lossless_iff (by omega) []).mpr
  intro hexact
  omega

/-- Of 256 characters the last one is lost. -/
theorem logFormat_not_lossless :
    ¬ ∀ out result : Text, result.length < 65533 → Lossless out result := by
  intro h
  have hlength : (List.replicate 256 (65 : UInt8)).length = 256 :=
    List.length_replicate
  have hlossless := h [] (List.replicate 256 65) (by omega)
  rw [lossless_exact_iff hlength, List.getLast?_replicate] at hlossless
  exact absurd hlossless (by decide)

end Net
end NetEngine
