import ObjcAtlas.Image.Bytes
import ObjcAtlas.Proofs.Text.Utf8

set_option autoImplicit false

/-!
# Bytes at a place

Written bytes stand at a place of a longer list, and a reader of the list finds there what was
written. `Holds` composes along the way an image is built: parts of a part, bytes filled up, and
bytes laid over others elsewhere.
-/
namespace ObjcAtlas

theorem Bytes.length_overlay (bytes patch : List UInt8) (offset : Nat) :
    (Bytes.overlay bytes offset patch).length = max (offset + patch.length) bytes.length := by
  simp only [Bytes.overlay, List.length_append, List.length_take, List.length_drop,
    Bytes.length_pad]
  omega

/-- From `offset` on, the bytes start with `part`. -/
def Holds (all : List UInt8) (offset : Nat) (part : List UInt8) : Prop :=
  ∃ pre post, all = pre ++ (part ++ post) ∧ pre.length = offset

namespace Holds

variable {all part other : List UInt8} {offset place : Nat}

theorem length_le (h : Holds all offset part) : offset + part.length ≤ all.length := by
  obtain ⟨pre, post, rfl, rfl⟩ := h
  simp only [List.length_append]
  omega

theorem self (all : List UInt8) : Holds all 0 all := ⟨[], [], (List.append_nil _).symm, rfl⟩

theorem trans (h : Holds all offset part) (h' : Holds part place other) :
    Holds all (offset + place) other := by
  obtain ⟨pre, post, rfl, rfl⟩ := h
  obtain ⟨pre', post', rfl, rfl⟩ := h'
  refine ⟨pre ++ pre', post' ++ post, ?_, List.length_append⟩
  simp only [List.append_assoc]

theorem append_left (h : Holds all offset (part ++ other)) : Holds all offset part :=
  h.trans ⟨[], other, rfl, rfl⟩

theorem append_right (h : Holds all offset (part ++ other)) :
    Holds all (offset + part.length) other :=
  h.trans ⟨part, [], by rw [List.append_nil], rfl⟩

theorem flatMap {α : Type} {f : α → List UInt8} {size : Nat} {as : List α}
    (h : Holds all offset (as.flatMap f)) (hsize : ∀ a ∈ as, (f a).length = size) {i : Nat} {a : α}
    (hi : as[i]? = some a) : Holds all (offset + i * size) (f a) := by
  induction as generalizing offset i with
  | nil => exact absurd hi nofun
  | cons x as ih =>
    rw [List.flatMap_cons] at h
    cases i with
    | zero =>
      obtain rfl : x = a := Option.some.inj hi
      simpa using h.append_left
    | succ i =>
      have hrest := ih h.append_right (fun b hb => hsize b (List.mem_cons_of_mem _ hb)) hi
      rw [hsize x List.mem_cons_self] at hrest
      rwa [Nat.succ_mul, Nat.add_comm (i * size), ← Nat.add_assoc]

theorem pad (h : Holds all offset part) (n : Nat) : Holds (Bytes.pad n all) offset part := by
  obtain ⟨pre, post, rfl, rfl⟩ := h
  refine ⟨pre, post ++ Bytes.zeros (n - (pre ++ (part ++ post)).length), ?_, rfl⟩
  simp only [Bytes.pad, List.append_assoc]

theorem overlay (all : List UInt8) (offset : Nat) (part : List UInt8) :
    Holds (Bytes.overlay all offset part) offset part := by
  refine ⟨(Bytes.pad (offset + part.length) all).take offset, _, List.append_assoc _ _ _, ?_⟩
  rw [List.length_take, Bytes.length_pad]
  omega

/-- Bytes laid over others elsewhere leave a part as it is. -/
theorem overlay_apart (h : Holds all offset part)
    (hap : offset + part.length ≤ place ∨ place + other.length ≤ offset) :
    Holds (Bytes.overlay all place other) offset part := by
  obtain ⟨pre, post, hgrown, rfl⟩ := h.pad (place + other.length)
  simp only [Bytes.overlay, hgrown]
  rcases hap with hbefore | hbehind
  · refine ⟨pre, post.take (place - pre.length - part.length) ++ (other ++
      (pre ++ (part ++ post)).drop (place + other.length)), ?_, rfl⟩
    rw [List.take_append, List.take_append, List.take_of_length_le (by omega),
      List.take_of_length_le (by omega)]
    simp only [List.append_assoc]
  · refine ⟨(pre ++ (part ++ post)).take place ++ other ++ pre.drop (place + other.length), post,
      ?_, ?_⟩
    · rw [List.drop_append_of_le_length (by omega)]
      simp only [List.append_assoc]
    · simp only [List.length_append, List.length_take, List.length_drop]
      omega

end Holds

namespace Reader

def Has (r : Reader) (offset : Nat) (part : List UInt8) : Prop :=
  Holds r.bytes.data.toList offset part

def ofList (order : ByteOrder) (bytes : List UInt8) : Reader := ⟨⟨bytes.toArray⟩, order⟩

variable {r : Reader} {offset : Nat} {part : List UInt8}

theorem size_eq_length (r : Reader) : r.size = r.bytes.data.toList.length := rfl

theorem size_ofList (order : ByteOrder) (bytes : List UInt8) :
    (ofList order bytes).size = bytes.length := rfl

namespace Has

theorem slice (h : r.Has offset part) : r.slice offset part.length = .ok ⟨part.toArray⟩ := by
  have hlen := h.length_le
  obtain ⟨pre, post, hall, rfl⟩ := h
  rw [Reader.slice, if_pos (by rwa [size_eq_length])]
  refine congrArg Except.ok (ByteArray.ext (Array.toList_inj.1 ?_))
  rw [ByteArray.data_extract, Array.toList_extract, List.extract_eq_take_drop, hall]
  simp

theorem sub (h : r.Has offset part) : r.sub offset part.length = .ok (ofList r.order part) := by
  rw [Reader.sub, h.slice]
  rfl

theorem number {width n : Nat} (h : r.Has offset (r.order.bytes width n)) :
    r.number width offset = .ok (n % 1 <<< (8 * width)) := by
  have hs := h.slice
  rw [ByteOrder.bytes_length] at hs
  rw [Reader.number, hs]
  exact congrArg Except.ok (ByteOrder.value_bytes r.order width n)

theorem u16 {n : Nat} (h : r.Has offset (r.order.bytes 2 n)) :
    r.u16 offset = .ok (UInt16.ofNat n) := by
  rw [Reader.u16, h.number]
  exact congrArg Except.ok (UInt16.toNat.inj (by simp))

theorem u32 {n : Nat} (h : r.Has offset (r.order.bytes 4 n)) :
    r.u32 offset = .ok (UInt32.ofNat n) := by
  rw [Reader.u32, h.number]
  exact congrArg Except.ok (UInt32.toNat.inj (by simp))

theorem u64 {n : Nat} (h : r.Has offset (r.order.bytes 8 n)) :
    r.u64 offset = .ok (UInt64.ofNat n) := by
  rw [Reader.u64, h.number]
  exact congrArg Except.ok (UInt64.toNat.inj (by simp))

theorem half {n : UInt32} (h : r.Has offset (r.order.half n)) : r.u32 offset = .ok n := by
  rw [h.u32, UInt32.ofNat_toNat]

theorem byteAt {b : UInt8} (h : r.Has offset (b :: part)) : byteAt r.bytes offset = b := by
  have hlen := h.length_le
  obtain ⟨pre, post, hall, rfl⟩ := h
  have hlt : pre.length < r.bytes.size := by
    rw [List.length_cons] at hlen
    exact Nat.lt_of_lt_of_le (by omega) hlen
  rw [Reader.byteAt, dif_pos hlt]
  change r.bytes.data[pre.length] = b
  rw [← Array.getElem_toList]
  simp [hall]

theorem zeroFrom {text : List UInt8} (h : r.Has offset (text ++ [0])) (hz : 0 ∉ text) {count : Nat}
    (hc : text.length < count) : zeroFrom r.bytes count offset = some (offset + text.length) := by
  induction text generalizing offset count with
  | nil =>
    cases count with
    | zero => exact absurd hc (Nat.not_lt_zero _)
    | succ count =>
      rw [Reader.zeroFrom, if_pos h.byteAt]
      rfl
  | cons b text ih =>
    cases count with
    | zero => exact absurd hc (Nat.not_lt_zero _)
    | succ count =>
      have hb : b ≠ 0 := fun h0 => hz (h0 ▸ List.mem_cons_self)
      have hrest : r.Has (offset + 1) (text ++ [0]) :=
        h.trans ⟨[b], [], by rw [List.append_nil]; rfl, rfl⟩
      rw [Reader.zeroFrom, if_neg (by rwa [h.byteAt]),
        ih hrest (fun hm => hz (List.mem_cons_of_mem _ hm)) (Nat.lt_of_succ_lt_succ hc),
        List.length_cons]
      congr 1
      omega

theorem cstring {s : String} (h : r.Has offset (Bytes.cstring s)) (hz : '\x00' ∉ s.toList) :
    r.cstring offset = .ok s := by
  have hlen := h.length_le
  rw [Bytes.cstring, List.length_append, List.length_singleton, ← size_eq_length] at hlen
  have hcount : (Utf8.encode s).length < r.size - offset := by omega
  have hzero := h.zeroFrom (Utf8.zero_not_mem_encode hz) hcount
  have htext : r.Has offset (Utf8.encode s) := h.append_left
  have hs := htext.slice
  rw [Reader.slice, if_pos (by omega)] at hs
  rw [Reader.cstring, Reader.untilZero, if_neg (by omega), hzero]
  simp only [Except.ok.inj hs]
  exact congrArg Except.ok (Utf8.decodeLossy_encode s)

end Has

/-- The parts stand one behind the other. -/
def HasAll (r : Reader) : (offset : Nat) → List (List UInt8) → Prop
  | _, [] => True
  | offset, part :: parts => r.Has offset part ∧ r.HasAll (offset + part.length) parts

theorem Has.all {parts : List (List UInt8)} (h : r.Has offset parts.flatten) :
    r.HasAll offset parts := by
  induction parts generalizing offset with
  | nil => trivial
  | cons part parts ih =>
    rw [List.flatten_cons] at h
    exact ⟨h.append_left, ih h.append_right⟩

end Reader

end ObjcAtlas
