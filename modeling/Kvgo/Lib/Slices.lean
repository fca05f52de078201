import Kvgo.Lib.Words

/-! Slices of a buffer as Go takes them: `none` is the panic of an index out of range. -/

namespace Slices

open Words

variable {α : Type*}

def slice (buf : List α) (lo hi : Nat) : Option (List α) :=
  if lo ≤ hi ∧ hi ≤ buf.length then some ((buf.drop lo).take (hi - lo)) else none

def put (buf : List α) (off : Nat) (src : List α) : Option (List α) :=
  if off + src.length ≤ buf.length then
    some (buf.take off ++ (src ++ buf.drop (off + src.length)))
  else none

def copy (buf : List α) (off : Nat) (src : List α) : Option (List α) :=
  if off ≤ buf.length then put buf off (src.take (buf.length - off)) else none

def uint (buf : List UInt8) (off width : Nat) : Option Nat :=
  (slice buf off (off + width)).map ofLE

theorem slice_of_le {buf : List α} {off len : Nat} (inside : off + len ≤ buf.length) :
    slice buf off (off + len) = some ((buf.drop off).take len) := by
  rw [slice, if_pos ⟨by omega, inside⟩, Nat.add_sub_cancel_left]

theorem uint_of_le {buf : List UInt8} {off width : Nat} (inside : off + width ≤ buf.length) :
    uint buf off width = some (ofLE ((buf.drop off).take width)) := by
  rw [uint, slice_of_le inside, Option.map_some]

theorem put_append {done rest src : List α} {off : Nat} (here : off = done.length)
    (fits : src.length ≤ rest.length) :
    put (done ++ rest) off src = some (done ++ src ++ rest.drop src.length) := by
  subst here
  rw [put, if_pos (by rw [List.length_append]; omega), List.take_left, List.drop_append,
    List.drop_eq_nil_of_le (by omega), List.nil_append, Nat.add_sub_cancel_left, List.append_assoc]

theorem copy_append {done rest src : List α} {off : Nat} (here : off = done.length)
    (fits : src.length ≤ rest.length) :
    copy (done ++ rest) off src = some (done ++ src ++ rest.drop src.length) := by
  have all : src.take ((done ++ rest).length - off) = src := by
    rw [List.take_of_length_le (by rw [List.length_append]; omega)]
  rw [copy, if_pos (by rw [List.length_append]; omega), all, put_append here fits]

theorem put_replicate {done src : List α} {z : α} {off n : Nat} (here : off = done.length)
    (fits : src.length ≤ n) :
    put (done ++ List.replicate n z) off src =
      some (done ++ src ++ List.replicate (n - src.length) z) := by
  rw [put_append here (by rwa [List.length_replicate]), List.drop_replicate]

theorem copy_replicate {done src : List α} {z : α} {off n : Nat} (here : off = done.length)
    (fits : src.length ≤ n) :
    copy (done ++ List.replicate n z) off src =
      some (done ++ src ++ List.replicate (n - src.length) z) := by
  rw [copy_append here (by rwa [List.length_replicate]), List.drop_replicate]

end Slices
