/-
Frames with a header that gives the length.

A frame is a header of fixed width, in any base, and as many digits of payload as the
header says; a format also bounds the payload.

* `value`, `digits` — numbers and their digits, the most significant first;
* `Format.encode` — the frame of a payload;
* `Format.Whole`, `Format.Unfinished` — the input is a frame, or calls for more;
* `Format.whole_iff` — exactly the frames of short enough payloads are whole;
* `Format.eq_of_begins` — no frame is the beginning of another one.
-/
import Mathlib.Algebra.Order.Ring.Nat
import Mathlib.Data.Nat.Digits.Defs
import Mathlib.Data.List.Induction

namespace Framing

variable {b : ℕ}

/-! ### Digits -/

/-- The number that digits write, the most significant first. -/
def value (l : List (Fin b)) : ℕ := l.foldl (fun n digit => n * b + digit.val) 0

theorem value_concat (l : List (Fin b)) (digit : Fin b) :
    value (l ++ [digit]) = value l * b + digit.val := by
  rw [value, List.foldl_append]
  rfl

theorem value_eq_ofDigits (l : List (Fin b)) :
    value l = Nat.ofDigits b (l.reverse.map Fin.val) := by
  induction l using List.reverseRecOn with
  | nil => rfl
  | append_singleton l digit ih =>
    rw [value_concat, List.reverse_concat, List.map_cons, Nat.ofDigits_cons, ih, Nat.mul_comm,
      Nat.add_comm]

theorem mem_val_lt {l : List (Fin b)} : ∀ n ∈ l.reverse.map Fin.val, n < b := by
  intro n hn
  obtain ⟨digit, -, rfl⟩ := List.mem_map.mp hn
  exact digit.isLt

/-- Digits of one length are determined by their number. -/
theorem value_injective (hb : 1 < b) {l l' : List (Fin b)} (hlength : l.length = l'.length)
    (h : value l = value l') : l = l' := by
  rw [value_eq_ofDigits, value_eq_ofDigits] at h
  have hmap := Nat.ofDigits_inj_of_len_eq hb (by simpa using hlength) mem_val_lt mem_val_lt h
  exact List.reverse_inj.mp ((List.map_inj_right fun _ _ => Fin.ext).mp hmap)

/-- The last `width` digits of a number. -/
def digits [NeZero b] : ℕ → ℕ → List (Fin b)
  | 0, _ => []
  | width + 1, n => digits width (n / b) ++ [Fin.ofNat b n]

theorem length_digits [NeZero b] (width n : ℕ) : (digits width n : List (Fin b)).length = width := by
  induction width generalizing n with
  | zero => rfl
  | succ width ih => rw [digits, List.length_append, ih, List.length_singleton]

theorem value_digits [NeZero b] {width n : ℕ} (h : n < b ^ width) :
    value (digits width n : List (Fin b)) = n := by
  induction width generalizing n with
  | zero => exact (Nat.lt_one_iff.mp h).symm
  | succ width ih =>
    rw [digits, value_concat, ih (Nat.div_lt_of_lt_mul (Nat.pow_succ' ▸ h))]
    exact Nat.div_add_mod' n b

/-! ### Formats -/

/-- What a frame looks like. -/
structure Format where
  base : ℕ
  width : ℕ
  limit : ℕ
  one_lt : 1 < base
  fits : limit < base ^ width

namespace Format

variable (f : Format)

instance base_neZero : NeZero f.base := ⟨(Nat.zero_lt_of_lt f.one_lt).ne'⟩

/-- The length that the header gives. -/
def claimed (input : List (Fin f.base)) : ℕ := value (input.take f.width)

/-- The frame of a payload. -/
def encode (payload : List (Fin f.base)) : List (Fin f.base) :=
  digits f.width payload.length ++ payload

/-- The input is one frame. -/
def Whole (input : List (Fin f.base)) : Prop :=
  f.width ≤ input.length ∧ f.claimed input ≤ f.limit ∧
    input.length = f.width + f.claimed input

/-- The input is too short, for a header or for what the header gives. -/
def Unfinished (input : List (Fin f.base)) : Prop :=
  input.length < f.width ∨
    (f.claimed input ≤ f.limit ∧ input.length < f.width + f.claimed input)

variable {f}

theorem length_encode (payload : List (Fin f.base)) :
    (f.encode payload).length = f.width + payload.length := by
  rw [encode, List.length_append, length_digits]

/-- What begins with the header of a payload gives its length. -/
theorem claimed_encode {payload input : List (Fin f.base)} (hpayload : payload.length ≤ f.limit)
    (hinput : input.take f.width = (f.encode payload).take f.width) :
    f.claimed input = payload.length := by
  rw [claimed, hinput, encode, List.take_left' (length_digits ..),
    value_digits (Nat.lt_of_le_of_lt hpayload f.fits)]

/-- **Exactly the frames are whole.** -/
theorem whole_iff {input : List (Fin f.base)} :
    f.Whole input ↔ ∃ payload, payload.length ≤ f.limit ∧ input = f.encode payload := by
  constructor
  · rintro ⟨hheader, hlimit, hlength⟩
    have hpayload : (input.drop f.width).length = f.claimed input := by
      rw [List.length_drop, hlength]
      omega
    refine ⟨input.drop f.width, hpayload ▸ hlimit, ?_⟩
    rw [encode, hpayload]
    have htake : (input.take f.width).length = f.width := List.length_take_of_le hheader
    have hsame : digits f.width (f.claimed input) = input.take f.width :=
      value_injective f.one_lt ((length_digits ..).trans htake.symm)
        (value_digits (Nat.lt_of_le_of_lt hlimit f.fits))
    rw [hsame, List.take_append_drop]
  · rintro ⟨payload, hpayload, rfl⟩
    have hclaimed : f.claimed (f.encode payload) = payload.length := claimed_encode hpayload rfl
    rw [Whole, hclaimed, length_encode]
    exact ⟨Nat.le_add_right .., hpayload, rfl⟩

/-- A frame with something behind it. -/
theorem exists_frame_append {input : List (Fin f.base)} (hlimit : f.claimed input ≤ f.limit)
    (hlength : f.width + f.claimed input < input.length) :
    ∃ payload rest, payload.length ≤ f.limit ∧ rest ≠ [] ∧ input = f.encode payload ++ rest := by
  have hlen : (input.take (f.width + f.claimed input)).length = f.width + f.claimed input :=
    List.length_take_of_le hlength.le
  have hclaimed : f.claimed (input.take (f.width + f.claimed input)) = f.claimed input := by
    rw [claimed, List.take_take, Nat.min_eq_left (Nat.le_add_right ..)]
    rfl
  have hwhole : f.Whole (input.take (f.width + f.claimed input)) := by
    rw [Whole, hclaimed, hlen]
    exact ⟨Nat.le_add_right .., hlimit, rfl⟩
  obtain ⟨payload, hpayload, hencode⟩ := whole_iff.mp hwhole
  refine ⟨payload, input.drop (f.width + f.claimed input), hpayload, ?_, ?_⟩
  · rw [Ne, List.drop_eq_nil_iff]
    omega
  · rw [← hencode, List.take_append_drop]

theorem Whole.not_unfinished {input : List (Fin f.base)} (h : f.Whole input) :
    ¬f.Unfinished input := by
  obtain ⟨hheader, -, hlength⟩ := h
  rintro (hshort | ⟨-, hshort⟩)
  · omega
  · omega

/-- The beginning of a frame calls for more. -/
theorem unfinished_of_begins {input payload : List (Fin f.base)}
    (hpayload : payload.length ≤ f.limit) (h : input <+: f.encode payload)
    (hne : input ≠ f.encode payload) : f.Unfinished input := by
  have hlt : input.length < f.width + payload.length := by
    rw [← length_encode]
    exact lt_of_le_of_ne h.length_le fun hlength => hne (h.eq_of_length hlength)
  by_cases hheader : input.length < f.width
  · exact .inl hheader
  · have hclaimed : f.claimed input = payload.length := by
      refine claimed_encode hpayload ?_
      obtain ⟨rest, hrest⟩ := h
      rw [← hrest, List.take_append_of_le_length (not_lt.mp hheader)]
    exact .inr (by rw [hclaimed]; exact ⟨hpayload, hlt⟩)

/-- **No frame is the beginning of another one.** -/
theorem eq_of_begins {p q : List (Fin f.base)} (hp : p.length ≤ f.limit) (hq : q.length ≤ f.limit)
    (h : f.encode p <+: f.encode q) : p = q := by
  have heq : f.encode p = f.encode q := by
    by_contra hne
    exact (whole_iff.mpr ⟨p, hp, rfl⟩).not_unfinished (unfinished_of_begins hq h hne)
  exact (List.append_inj heq ((length_digits ..).trans (length_digits ..).symm)).2

end Format

end Framing
