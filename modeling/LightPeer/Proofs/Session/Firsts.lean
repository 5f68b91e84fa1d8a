import LightPeer.Session.Syncing

/-! # First arrivals

A transaction can come more than once, and with different witnesses under the
same id. What a block collects are the first ones, in the order of their coming. -/

namespace LightPeer

namespace Syncing

theorem mem_ids_append {arrivals : List Tx} {tx : Tx} {txid : Hash} :
    txid ∈ (arrivals ++ [tx]).map Tx.id ↔ txid ∈ arrivals.map Tx.id ∨ txid = tx.id := by
  rw [List.map_append, List.mem_append, List.map_singleton, List.mem_singleton]

/-- The place of the first arrival of a transaction. -/
def rank (arrivals : List Tx) (txid : Hash) : Nat := arrivals.findIdx (·.id = txid)

variable {arrivals txs : List Tx} {txid : Hash}

theorem rank_lt (h : txid ∈ arrivals.map Tx.id) : rank arrivals txid < arrivals.length := by
  obtain ⟨tx, hmem, hid⟩ := List.mem_map.mp h
  exact List.findIdx_lt_length.mpr ⟨tx, hmem, decide_eq_true hid⟩

theorem rank_append (h : txid ∈ arrivals.map Tx.id) (later : List Tx) :
    rank (arrivals ++ later) txid = rank arrivals txid :=
  List.findIdx_append.trans (if_pos (rank_lt h))

theorem rank_append_self {tx : Tx} (h : tx.id ∉ arrivals.map Tx.id) :
    rank (arrivals ++ [tx]) tx.id = arrivals.length := by
  have hlength : rank arrivals tx.id = arrivals.length := by
    refine List.findIdx_eq_length_of_false fun other hmem => ?_
    exact decide_eq_false fun hid => h (hid ▸ List.mem_map_of_mem hmem)
  unfold rank at hlength ⊢
  simp [List.findIdx_append, hlength]

/-- Every transaction is the first arrival under its id, and they stand in the order of coming. -/
structure Firsts (arrivals txs : List Tx) : Prop where
  first : ∀ tx ∈ txs, arrivals.find? (·.id = tx.id) = some tx
  ordered : txs.Pairwise fun a b => rank arrivals a.id < rank arrivals b.id

namespace Firsts

theorem nil (arrivals : List Tx) : Firsts arrivals [] := ⟨nofun, .nil⟩

theorem mem (h : Firsts arrivals txs) {tx : Tx} (hmem : tx ∈ txs) : tx ∈ arrivals :=
  List.mem_of_find?_eq_some (h.first tx hmem)

theorem nodup (h : Firsts arrivals txs) : (txs.map Tx.id).Nodup := by
  refine List.pairwise_map.mpr (h.ordered.imp fun {a b} hlt heq => ?_)
  rw [heq] at hlt
  exact Nat.lt_irrefl _ hlt

theorem append (h : Firsts arrivals txs) (later : List Tx) : Firsts (arrivals ++ later) txs where
  first tx hmem := by rw [List.find?_append, h.first tx hmem, Option.some_or]
  ordered := by
    refine h.ordered.imp_of_mem fun {a b} ha hb hlt => ?_
    rwa [rank_append (List.mem_map_of_mem (h.mem ha)), rank_append (List.mem_map_of_mem (h.mem hb))]

theorem push (h : Firsts arrivals txs) {tx : Tx} (hnew : tx.id ∉ arrivals.map Tx.id) :
    Firsts (arrivals ++ [tx]) (txs ++ [tx]) where
  first other hmem := by
    rcases List.mem_append.mp hmem with hold | hlast
    · exact (h.append [tx]).first other hold
    · obtain rfl := List.mem_singleton.mp hlast
      have hnone : arrivals.find? (·.id = other.id) = none := by
        refine List.find?_eq_none.mpr fun seen hseen hid => ?_
        exact hnew (of_decide_eq_true hid ▸ List.mem_map_of_mem hseen)
      rw [List.find?_append, hnone]
      simp
  ordered := by
    refine List.pairwise_append.mpr ⟨(h.append [tx]).ordered, List.pairwise_singleton _ _, ?_⟩
    intro a ha b hb
    obtain rfl := List.mem_singleton.mp hb
    have hid : a.id ∈ arrivals.map Tx.id := List.mem_map_of_mem (h.mem ha)
    rw [rank_append hid, rank_append_self hnew]
    exact rank_lt hid

theorem nodup_txs (h : Firsts arrivals txs) : txs.Nodup := by
  apply h.ordered.imp
  rintro a b hlt rfl
  exact Nat.lt_irrefl _ hlt

theorem mem_of_id_mem {others : List Tx} (h : Firsts arrivals txs) (hothers : Firsts arrivals others)
    {tx : Tx} (hmem : tx ∈ txs) (hid : tx.id ∈ others.map Tx.id) : tx ∈ others := by
  obtain ⟨other, hother, heq⟩ := List.mem_map.mp hid
  have hfirst := h.first tx hmem
  rw [← heq, hothers.first other hother] at hfirst
  rwa [← Option.some.inj hfirst]

/-- The ids say which first arrivals a list holds, and so what the list is. -/
theorem unique {others : List Tx} (h : Firsts arrivals txs) (hothers : Firsts arrivals others)
    (hids : ∀ txid, txid ∈ txs.map Tx.id ↔ txid ∈ others.map Tx.id) : txs = others := by
  have hperm : txs.Perm others := by
    refine (List.perm_ext_iff_of_nodup h.nodup_txs hothers.nodup_txs).mpr fun tx => ⟨?_, ?_⟩
    · intro hmem
      exact h.mem_of_id_mem hothers hmem ((hids tx.id).mp (List.mem_map_of_mem hmem))
    · intro hmem
      exact hothers.mem_of_id_mem h hmem ((hids tx.id).mpr (List.mem_map_of_mem hmem))
  refine hperm.eq_of_pairwise ?_ h.ordered hothers.ordered
  intro a b _ _ hab hba
  exact absurd hba (Nat.lt_asymm hab)

end Firsts

end Syncing

end LightPeer
