import Mathlib.Data.List.Basic
import ReleaseInstaller.Text.Utf8

/-! Characters that no percent sign stands for: decoding and escaping leave them as they are. -/
namespace ReleaseInstaller.Text

variable {s : List Char}

/-- The bytes from an index on, behind those that have been read. -/
theorem toList_loop_eq (bytes : ByteArray) (i : Nat) (read : List UInt8) :
    ByteArray.toList.loop bytes i read = read.reverse ++ bytes.data.toList.drop i := by
  fun_induction ByteArray.toList.loop bytes i read with
  | case1 i read hi ih =>
    have hlt : i < bytes.data.toList.length := hi
    have hget : bytes.get! i = bytes.data.toList[i] := by
      show bytes.data[i]! = _
      rw [getElem!_pos bytes.data i hi, Array.getElem_toList]
    rw [ih, List.reverse_cons, List.append_assoc, List.drop_eq_getElem_cons hlt, hget]
    rfl
  | case2 i read hi =>
    have hle : bytes.data.toList.length ≤ i := Nat.not_lt.mp hi
    rw [List.drop_eq_nil_of_le hle, List.append_nil]

theorem toArray_utf8Bytes (c : Char) : (utf8Bytes c).toArray = [c].utf8Encode.data := by
  rw [utf8Bytes, ByteArray.toList, toList_loop_eq, String.toUTF8, String.toByteArray_singleton]
  rfl

/-- A text is read from the bytes of its characters. -/
theorem ofUtf8?_flatMap_utf8Bytes (s : List Char) :
    ofUtf8? (s.flatMap utf8Bytes) = some (String.ofList s) := by
  have hdata : (s.flatMap utf8Bytes).toArray = s.utf8Encode.data := by
    induction s with
    | nil => rfl
    | cons c s ih =>
      rw [List.utf8Encode_cons, ByteArray.data_append, ← ih, List.flatMap_cons, ← List.append_toArray,
        toArray_utf8Bytes]
  have hbytes : (⟨(s.flatMap utf8Bytes).toArray⟩ : ByteArray) = s.utf8Encode :=
    ByteArray.ext_iff.mpr hdata
  unfold ofUtf8? String.fromUTF8?
  rw [hbytes, dif_pos ⟨s, rfl⟩]
  rfl

theorem percentDecode_of_not_mem (h : '%' ∉ s) : percentDecode s = s.flatMap utf8Bytes := by
  fun_induction percentDecode s with
  | case1 a b rest x y ha hb ih => simp at h
  | case2 a b rest _ ih => simp at h
  | case3 c rest _ ih =>
    rw [List.flatMap_cons, ih (List.not_mem_of_not_mem_cons h)]
  | case4 => rfl

theorem percentEncode_of_forall {p : Char → Bool} (h : ∀ c ∈ s, p c = false) : percentEncode p s = s := by
  induction s with
  | nil => rfl
  | cons c s ih =>
    obtain ⟨hc, hs⟩ := List.forall_mem_cons.mp h
    unfold percentEncode at ih ⊢
    rw [List.flatMap_cons, ih hs, hc]
    rfl

end ReleaseInstaller.Text
