/-! Finite sets, kept as lists without repetition. A set is seen through
membership; its size is the number of its members. -/

namespace LightPeer

structure FiniteSet (α : Type) where
  elems : List α
  nodup : elems.Nodup := by simp

namespace FiniteSet

variable {α : Type}

def empty : FiniteSet α := ⟨[], List.nodup_nil⟩

instance : Inhabited (FiniteSet α) := ⟨empty⟩

instance : Membership α (FiniteSet α) := ⟨fun s a => a ∈ s.elems⟩

def size (s : FiniteSet α) : Nat := s.elems.length

def isEmpty (s : FiniteSet α) : Bool := s.elems.isEmpty

variable [DecidableEq α]

instance (a : α) (s : FiniteSet α) : Decidable (a ∈ s) :=
  inferInstanceAs (Decidable (a ∈ s.elems))

def insert (s : FiniteSet α) (a : α) : FiniteSet α :=
  if h : a ∈ s.elems then s else ⟨a :: s.elems, List.nodup_cons.mpr ⟨h, s.nodup⟩⟩

def erase (s : FiniteSet α) (a : α) : FiniteSet α := ⟨s.elems.erase a, s.nodup.erase a⟩

def insertAll (s : FiniteSet α) (values : List α) : FiniteSet α := values.foldl insert s

def ofList (values : List α) : FiniteSet α := empty.insertAll values

/-! ## Membership and size -/

omit [DecidableEq α] in
@[simp] theorem not_mem_empty (a : α) : a ∉ (empty : FiniteSet α) := List.not_mem_nil

omit [DecidableEq α] in
@[simp] theorem isEmpty_iff {s : FiniteSet α} : s.isEmpty ↔ ∀ a, a ∉ s := by
  obtain ⟨l, h⟩ := s
  cases l with
  | nil => exact ⟨fun _ a => List.not_mem_nil, fun _ => rfl⟩
  | cons b l => exact ⟨(fun he => nomatch he), fun he => absurd List.mem_cons_self (he b)⟩

omit [DecidableEq α] in
theorem isEmpty_iff_size {s : FiniteSet α} : s.isEmpty ↔ s.size = 0 := by
  simp [isEmpty, size]

@[simp] theorem mem_insert {s : FiniteSet α} {a b : α} : b ∈ s.insert a ↔ b = a ∨ b ∈ s := by
  unfold insert
  split
  · next h =>
    constructor
    · exact Or.inr
    · rintro (rfl | hb)
      · exact h
      · exact hb
  · exact List.mem_cons

@[simp] theorem mem_erase {s : FiniteSet α} {a b : α} : b ∈ s.erase a ↔ b ≠ a ∧ b ∈ s :=
  s.nodup.mem_erase_iff

theorem erase_of_not_mem {s : FiniteSet α} {a : α} (h : a ∉ s) : s.erase a = s := by
  obtain ⟨elems, nodup⟩ := s
  simp only [erase, mk.injEq]
  exact List.erase_of_not_mem h

@[simp] theorem mem_insertAll {s : FiniteSet α} {values : List α} {b : α} :
    b ∈ s.insertAll values ↔ b ∈ values ∨ b ∈ s := by
  unfold insertAll
  induction values generalizing s with
  | nil => simp
  | cons a values ih =>
    rw [List.foldl_cons, ih, mem_insert, List.mem_cons]
    constructor
    · rintro (h | h | h)
      · exact .inl (.inr h)
      · exact .inl (.inl h)
      · exact .inr h
    · rintro ((h | h) | h)
      · exact .inr (.inl h)
      · exact .inl h
      · exact .inr (.inr h)

@[simp] theorem mem_ofList {values : List α} {b : α} : b ∈ ofList values ↔ b ∈ values := by
  simp [ofList]

theorem size_insert (s : FiniteSet α) (a : α) :
    (s.insert a).size = if a ∈ s then s.size else s.size + 1 := by
  unfold insert
  split
  · next h => exact (if_pos (c := a ∈ s) h).symm
  · next h => exact (if_neg (c := a ∈ s) h).symm

theorem size_erase (s : FiniteSet α) (a : α) :
    (s.erase a).size = if a ∈ s then s.size - 1 else s.size := by
  show (s.elems.erase a).length = if a ∈ s.elems then _ else _
  split
  · next h => exact List.length_erase_of_mem h
  · next h => rw [List.erase_of_not_mem h]; rfl

end FiniteSet

end LightPeer
