import Mathlib.Data.List.Pairwise
import ManagedRuntime.Memory.Command
import ManagedRuntime.Proofs.Lookup

/-!
# Blocks share no bytes

All blocks lie in one address space. What is stored in one of them is not seen in another one.

* `Memory.Valid` : the blocks with names are apart from each other;
* `Memory.contents` : the bytes of a name;
* `overwrite` : bytes of a list in the place of others;
* `Valid.contents_store`, `contents_free`, `Valid.contents_place` : what storing, freeing and placing do to contents.
-/

namespace ManagedRuntime

set_option autoImplicit false

namespace Block

variable {b c : Block}

theorem Apart.symm (h : b.Apart c) : c.Apart b := Or.symm h

end Block

/-! ## Lists of bytes -/

/-- Other elements from a place on. -/
def overwrite {α : Type} (xs : List α) (offset : Nat) (ys : List α) : List α :=
  xs.take offset ++ ys ++ xs.drop (offset + ys.length)

section

variable {α : Type}

theorem getElem?_map_range (f : Nat → α) (n i : Nat) :
    ((List.range n).map f)[i]? = if i < n then some (f i) else none := by
  rw [List.getElem?_map]
  by_cases hi : i < n
  · rw [List.getElem?_range hi, if_pos hi, Option.map_some]
  · rw [List.getElem?_eq_none (by rw [List.length_range]; omega), if_neg hi, Option.map_none]

theorem overwrite_nil (xs : List α) (offset : Nat) : overwrite xs offset [] = xs := by
  rw [overwrite, List.append_nil, List.length_nil, Nat.add_zero, List.take_append_drop]

theorem getElem?_overwrite {xs ys : List α} {offset : Nat} (h : offset + ys.length ≤ xs.length) (i : Nat) :
    (overwrite xs offset ys)[i]? =
      if offset ≤ i ∧ i < offset + ys.length then ys[i - offset]? else xs[i]? := by
  have htake : (xs.take offset).length = offset := by
    rw [List.length_take]
    omega
  rw [overwrite, List.append_assoc]
  by_cases hlow : i < offset
  · rw [List.getElem?_append_left (by omega), List.getElem?_take_of_lt hlow, if_neg (by omega)]
  · rw [List.getElem?_append_right (by omega), htake]
    by_cases hhigh : i < offset + ys.length
    · rw [List.getElem?_append_left (by omega), if_pos ⟨by omega, hhigh⟩]
    · rw [List.getElem?_append_right (by omega), if_neg (by omega), List.getElem?_drop]
      congr 1
      omega

end

namespace Memory

variable {m : Memory} {name : String}

/-! ## Bytes of an address range -/

theorem length_load (m : Memory) (address n : Nat) : (m.load address n).length = n := by
  rw [load, List.length_map, List.length_range]

theorem getElem?_load (m : Memory) (address n i : Nat) :
    (m.load address n)[i]? = if i < n then some (m.bytes (address + i)) else none :=
  getElem?_map_range _ n i

theorem load_congr {m' : Memory} {address n : Nat} (h : ∀ i < n, m'.bytes (address + i) = m.bytes (address + i)) :
    m'.load address n = m.load address n :=
  List.map_congr_left fun i hi => h i (List.mem_range.1 hi)

theorem bytes_store (m : Memory) (address n : Nat) (value : Nat → Option UInt8) (a : Nat) :
    (m.store address n value).bytes a =
      if address ≤ a ∧ a < address + n then value (a - address) else m.bytes a := rfl

/-- What is stored apart from a block is not seen in it. -/
theorem load_store_of_apart {b c : Block} (h : b.Apart c) {address n : Nat} (hlow : c.address ≤ address)
    (hhigh : address + n ≤ c.address + c.size) (value : Nat → Option UInt8) :
    (m.store address n value).load b.address b.size = m.load b.address b.size := by
  refine load_congr fun i hi => ?_
  have hout : ¬(address ≤ b.address + i ∧ b.address + i < address + n) := by
    rcases h with h | h <;> omega
  rw [bytes_store, if_neg hout]

/-- What is stored inside of a range is seen there. -/
theorem load_store_of_inside {address size offset n : Nat} (h : offset + n ≤ size) (value : Nat → Option UInt8) :
    (m.store (address + offset) n value).load address size =
      overwrite (m.load address size) offset ((List.range n).map value) := by
  have hlength : ((List.range n).map value).length = n := by rw [List.length_map, List.length_range]
  refine List.ext_getElem? fun i => ?_
  rw [getElem?_overwrite (by rw [hlength, length_load]; exact h), hlength, getElem?_load, getElem?_load, bytes_store]
  by_cases hin : offset ≤ i ∧ i < offset + n
  · rw [if_pos (by omega), if_pos (by omega), if_pos hin, getElem?_map_range, if_pos (by omega),
      show address + i - (address + offset) = i - offset by omega]
  · rw [if_neg hin, if_neg (by omega : ¬(address + offset ≤ address + i ∧ address + i < address + offset + n))]

/-! ## Blocks and their contents -/

/-- The bytes that a name stands for; a null pointer has none. -/
def contents (m : Memory) (name : String) : List (Option UInt8) := m.load (m.block name).address (m.block name).size

theorem length_contents (m : Memory) (name : String) : (m.contents name).length = (m.block name).size := length_load ..

/-- The blocks with names are real, and have no byte in common. -/
structure Valid (m : Memory) : Prop where
  real : ∀ e ∈ m.blocks, 0 < e.2.address ∧ 0 < e.2.size
  apart : m.blocks.Pairwise fun e e' => e.2.Apart e'.2

theorem valid_empty : Memory.empty.Valid := ⟨nofun, .nil⟩

theorem Valid.apart_of_ne (h : m.Valid) {k k' : String} (hne : k ≠ k') {b b' : Block}
    (hb : m.blocks.lookup k = some b) (hb' : m.blocks.lookup k' = some b') : b.Apart b' := by
  have : Std.Symm fun e e' : String × Block => e.2.Apart e'.2 := ⟨fun _ _ ha => ha.symm⟩
  exact h.apart.forall (mem_of_lookup hb) (mem_of_lookup hb') fun he => hne (congrArg Prod.fst he)

/-- A name is a null pointer, or it has a block. -/
theorem null_or_lookup (m : Memory) (name : String) :
    m.block name = .null ∨ m.blocks.lookup name = some (m.block name) := by
  unfold block
  cases m.blocks.lookup name with
  | none => exact .inl rfl
  | some b => exact .inr rfl

theorem block_free (m : Memory) (name k : String) : (m.free name).block k = if k = name then .null else m.block k := by
  rw [block, free, lookup_filter_ne]
  split <;> rfl

theorem block_place (m : Memory) (name : String) (b : Block) (value : Nat → Option UInt8) (k : String) :
    (m.place name b value).block k = if k = name then b else m.block k := by
  have hcons : (m.place name b value).block k = (((name, b) :: (m.free name).blocks).lookup k).getD .null := rfl
  rw [hcons, lookup_cons_ite]
  split
  · rfl
  · next hk =>
    have hfree := block_free m name k
    rw [if_neg hk] at hfree
    exact hfree

theorem contents_free (m : Memory) (name k : String) :
    (m.free name).contents k = if k = name then [] else m.contents k := by
  rw [contents, block_free]
  split <;> rfl

theorem Valid.free (h : m.Valid) (name : String) : (m.free name).Valid :=
  ⟨fun e he => h.real e (List.mem_filter.1 he).1, h.apart.filter _⟩

/-- **What is stored inside of one block changes that one only.** -/
theorem Valid.contents_store (h : m.Valid) {offset n : Nat} (hin : 0 < n → offset + n ≤ (m.contents name).length)
    (value : Nat → Option UInt8) (k : String) :
    (m.store ((m.block name).address + offset) n value).contents k =
      if k = name then overwrite (m.contents name) offset ((List.range n).map value) else m.contents k := by
  have hload : (m.store ((m.block name).address + offset) n value).contents k =
      (m.store ((m.block name).address + offset) n value).load (m.block k).address (m.block k).size := rfl
  rw [hload]
  rcases Nat.eq_zero_or_pos n with rfl | hn
  · -- Nothing is stored, wherever the range may lie.
    rw [List.range_zero, List.map_nil, overwrite_nil]
    have hsame : (m.store ((m.block name).address + offset) 0 value).load (m.block k).address (m.block k).size =
        m.contents k := by
      refine load_congr fun i _ => ?_
      rw [bytes_store, if_neg (by omega)]
    rw [hsame]
    split
    · next hk => rw [hk]
    · rfl
  · have hsize := hin hn
    rw [length_contents] at hsize
    by_cases hk : k = name
    · rw [if_pos hk, hk]
      exact load_store_of_inside hsize value
    · rw [if_neg hk]
      rcases m.null_or_lookup k with hnull | hb
      · rw [contents, hnull]
        rfl
      rcases m.null_or_lookup name with hnull | hb'
      · rw [hnull] at hsize
        exact absurd hsize (by change ¬ offset + n ≤ 0; omega)
      · exact load_store_of_apart (h.apart_of_ne hk hb hb') (by omega) (by omega) value

theorem Valid.store (h : m.Valid) (address n : Nat) (value : Nat → Option UInt8) : (m.store address n value).Valid :=
  ⟨h.real, h.apart⟩

section Place

variable {b : Block}

theorem Valid.place (h : m.Valid) (hpos : 0 < b.address ∧ 0 < b.size) (hb : ∀ c ∈ (m.free name).inUse, c.Apart b)
    (value : Nat → Option UInt8) : (m.place name b value).Valid := by
  refine ⟨fun e he => ?_, List.pairwise_cons.2 ⟨fun e he => ?_, (h.free name).apart⟩⟩
  · rcases List.mem_cons.1 he with rfl | he
    · exact hpos
    · exact (h.free name).real e he
  · exact (hb e.2 (List.mem_map_of_mem he)).symm

/-- A new block has its own bytes, and the other blocks have what they had. -/
theorem contents_place (m : Memory) (hb : ∀ c ∈ (m.free name).inUse, c.Apart b) (value : Nat → Option UInt8)
    (k : String) :
    (m.place name b value).contents k = if k = name then (List.range b.size).map value else m.contents k := by
  have hload : (m.place name b value).contents k = ((m.free name).store b.address b.size value).load
      ((m.place name b value).block k).address ((m.place name b value).block k).size := rfl
  rw [hload, block_place]
  by_cases hk : k = name
  · rw [if_pos hk, if_pos hk]
    refine List.map_congr_left fun i hi => ?_
    have hlt := List.mem_range.1 hi
    rw [bytes_store, if_pos (by omega), Nat.add_sub_cancel_left]
  · rw [if_neg hk, if_neg hk]
    have hfree : (m.free name).block k = m.block k := by rw [block_free, if_neg hk]
    rw [contents, ← hfree]
    rcases (m.free name).null_or_lookup k with hnull | hl
    · rw [hnull]
      rfl
    · exact load_store_of_apart (hb _ (List.mem_map_of_mem (mem_of_lookup hl))) (Nat.le_refl _) (Nat.le_refl _) value

end Place

end Memory

end ManagedRuntime
