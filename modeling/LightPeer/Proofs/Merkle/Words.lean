import LightPeer.Merkle.Words
import LightPeer.Proofs.Merkle.Walk

/-! # The walk fits into machine words

Levels of a tree with less than `2 ^ 32` leaves are counted without overflow, and the
loop that looks for the height ends. The walk never leaves the tree, so its positions
stay in range as well, and all but the last call take a flag. -/

namespace LightPeer

namespace Word

variable {w : Nat}

theorem exists_ofNat? (w n : Nat) (h : n < 2 ^ w) :
    ∃ a : BitVec w, ofNat? w n = some a ∧ a.toNat = n := by
  have hn : (BitVec.ofNat w n).toNat = n := by rw [BitVec.toNat_ofNat, Nat.mod_eq_of_lt h]
  exact ⟨_, ofNat?_eq_some_iff.mpr hn, hn⟩

theorem exists_pred? {a : BitVec w} {n : Nat} (h : a.toNat = n + 1) :
    ∃ b : BitVec w, pred? a = some b ∧ b.toNat = n := by
  have hlt := a.isLt
  obtain ⟨b, -, hb⟩ := exists_ofNat? w n (by omega)
  exact ⟨b, pred?_eq_some_iff.mpr (by rw [h, hb]), hb⟩

end Word

namespace Merkle

/-! ## Widths and heights -/

theorem width_le_total (total k : Nat) : width total k ≤ total := by
  induction k with
  | zero => exact Nat.le_refl total
  | succ k ih =>
      rw [width_succ]
      omega

theorem one_lt_width_iff {total k : Nat} : 1 < width total k ↔ k < height total := by
  rw [lt_width_iff, Nat.one_mul, ← Nat.not_le, le_two_pow_iff, Nat.not_le]

variable {total k : BitVec 32}

theorem height_le (total : BitVec 32) : height total.toNat ≤ 32 :=
  le_two_pow_iff.mp (Nat.le_of_lt total.isLt)

theorem toNat_group (hlt : 2 ^ k.toNat < 2 ^ 64) :
    ((1 : BitVec 64) <<< k.toNat).toNat = 2 ^ k.toNat := by
  have hone : (1 : BitVec 64).toNat = 1 := rfl
  rw [BitVec.toNat_shiftLeft, Nat.shiftLeft_eq, hone, Nat.one_mul, Nat.mod_eq_of_lt hlt]

/-- No step on the way to the size of a level overflows, from the leaves to the top. -/
theorem exists_width? (total : BitVec 32) (hk : k.toNat ≤ 32) :
    ∃ count, width? total k = some count ∧ count.toNat = width total.toNat k.toNat := by
  have hpow : 2 ^ k.toNat ≤ 2 ^ 32 := Nat.pow_le_pow_right (by decide) hk
  have hpos : 0 < 2 ^ k.toNat := Nat.two_pow_pos _
  have htotal := total.isLt
  obtain ⟨filled, hfilled, hsum⟩ := Word.exists_ofNat? 64 (total.toNat + 2 ^ k.toNat) (by omega)
  have hsucc : filled.toNat = total.toNat + 2 ^ k.toNat - 1 + 1 := by omega
  obtain ⟨last, hlast, hpred⟩ := Word.exists_pred? hsucc
  have hshift : (last >>> k.toNat).toNat = width total.toNat k.toNat := by
    rw [BitVec.toNat_ushiftRight, Nat.shiftRight_eq_div_pow, width_eq, hpred]
  have hle := width_le_total total.toNat k.toNat
  obtain ⟨count, hcount, heq⟩ := Word.exists_ofNat? 32 (width total.toNat k.toNat) (by omega)
  refine ⟨count, ?_, heq⟩
  rw [width?, if_pos (by omega), toNat_group (by omega)]
  simp only [hfilled, hlast, hshift, hcount, Option.bind_eq_bind, Option.bind_some]

/-- One pass of the loop that looks for the height. -/
theorem heightFrom?_eq : heightFrom? total k = (width? total k).bind fun count =>
    if 1 < count then (Word.ofNat? 32 (k.toNat + 1)).bind (heightFrom? total) else some k := by
  rw [heightFrom?]
  refine Option.bind_congr fun count _ => ?_
  cases Word.ofNat? 32 (k.toNat + 1) <;> rfl

/-- From a height that is not too high on, the loop comes to the top of the tree. -/
theorem exists_heightFrom? (hk : k.toNat ≤ height total.toNat) :
    ∃ top, heightFrom? total k = some top ∧ top.toNat = height total.toNat := by
  -- the induction is on the number of levels that are still above
  obtain ⟨above, habove⟩ := Nat.exists_eq_add_of_le hk
  induction above generalizing k with
  | zero =>
      obtain ⟨count, hcount, heq⟩ := exists_width? total (Nat.le_trans hk (height_le total))
      have hone : ¬ 1 < count := by
        rw [BitVec.lt_def, heq]
        exact mt one_lt_width_iff.mp (by omega)
      refine ⟨k, ?_, by omega⟩
      rw [heightFrom?_eq, hcount, Option.bind_some, if_neg hone]
  | succ above ih =>
      obtain ⟨count, hcount, heq⟩ := exists_width? total (Nat.le_trans hk (height_le total))
      have hmany : 1 < count := by
        rw [BitVec.lt_def, heq]
        exact one_lt_width_iff.mpr (by omega)
      have hle := height_le total
      obtain ⟨next, hnext, hsucc⟩ := Word.exists_ofNat? 32 (k.toNat + 1) (by omega)
      have hbelow : next.toNat ≤ height total.toNat := by omega
      obtain ⟨top, htop, hheight⟩ := ih hbelow (by omega)
      refine ⟨top, ?_, hheight⟩
      rw [heightFrom?_eq, hcount, Option.bind_some, if_pos hmany, hnext, Option.bind_some, htop]

theorem exists_height? (total : BitVec 32) :
    ∃ top, height? total = some top ∧ top.toNat = height total.toNat :=
  exists_heightFrom? (Nat.zero_le _)

/-! ## The calls of the walk -/

/-- A call for a node of the tree that is not above a height. -/
def Call.Inside (total top : Nat) (call : Call) : Prop :=
  call.height.toNat ≤ top ∧ call.position.toNat < width total call.height.toNat

variable {α : Type}

/-- A trace that keeps to the tree below a height, of a walk with some flags to read. A
call takes a flag, unless there is none left for it. -/
structure Trace.Keeps (total top flags : Nat) (trace : Trace α) : Prop where
  inside : ∀ call ∈ trace.calls, call.Inside total top
  calls_of_ok : ∀ visit, trace.result = .ok visit →
    trace.calls.length + visit.rest.flags.length = flags
  calls_of_error : ∀ defect, trace.result = .error defect →
    trace.calls.length ≤ flags + if defect = .flagsExhausted then 1 else 0

theorem Call.Inside.succ {total top : Nat} {call : Call} (h : call.Inside total top) :
    call.Inside total (top + 1) :=
  ⟨Nat.le_succ_of_le h.1, h.2⟩

/-- The positions of a node's children fit into a word. -/
theorem Call.Inside.two_mul_lt {top : Nat} {call : Call} (h : call.Inside total.toNat top)
    (hinner : call.height ≠ 0) : 2 * call.position.toNat + 1 < 2 ^ 32 := by
  obtain ⟨below, hbelow⟩ : ∃ below, call.height.toNat = below + 1 :=
    Nat.exists_eq_succ_of_ne_zero fun hzero => hinner (BitVec.eq_of_toNat_eq hzero)
  have hposition := h.2
  rw [hbelow] at hposition
  have hchild := two_mul_lt_width hposition
  have hwidth := width_le_total total.toNat below
  have htotal := total.isLt
  omega

namespace Trace.Keeps

variable {total top flags : Nat} {call : Call} {left right : Trace α} {found visit : Visit α}
  {defect : Defect}

theorem exhausted (hcall : call.Inside total top) :
    Keeps total top 0 (⟨[call], .error .flagsExhausted⟩ : Trace α) where
  inside := by simpa using hcall
  calls_of_ok _ hok := nomatch hok
  calls_of_error defect hdefect := by
    cases hdefect
    exact Nat.le_refl 1

/-- A call that reads its flag and calls no other. -/
theorem stop (hcall : call.Inside total top) {result : Except Defect (Visit α)}
    (hok : ∀ visit, result = .ok visit → visit.rest.flags.length = flags) :
    Keeps total top (flags + 1) ⟨[call], result⟩ where
  inside := by simpa using hcall
  calls_of_ok visit hvisit := by
    have hrest := hok visit hvisit
    rw [List.length_singleton]
    omega
  calls_of_error _ _ := by
    rw [List.length_singleton]
    omega

theorem failed (hcall : call.Inside total (top + 1)) (h : left.Keeps total top flags)
    (hleft : left.result = .error defect) :
    Keeps total (top + 1) (flags + 1) (⟨call :: left.calls, .error defect⟩ : Trace α) where
  inside := List.forall_mem_cons.mpr ⟨hcall, fun other hmem => (h.inside other hmem).succ⟩
  calls_of_ok _ hok := nomatch hok
  calls_of_error other hother := by
    cases hother
    have hcalls := h.calls_of_error defect hleft
    rw [List.length_cons]
    omega

theorem single (hcall : call.Inside total (top + 1)) (h : left.Keeps total top flags)
    (hleft : left.result = .ok found) (hrest : visit.rest = found.rest) :
    Keeps total (top + 1) (flags + 1) ⟨call :: left.calls, .ok visit⟩ where
  inside := List.forall_mem_cons.mpr ⟨hcall, fun other hmem => (h.inside other hmem).succ⟩
  calls_of_ok other hother := by
    cases hother
    have hcalls := h.calls_of_ok found hleft
    rw [List.length_cons, hrest]
    omega
  calls_of_error _ herror := nomatch herror

theorem pair (hcall : call.Inside total (top + 1)) (h : left.Keeps total top flags)
    (hleft : left.result = .ok found) (h' : right.Keeps total top found.rest.flags.length)
    {join : Visit α → Except Defect (Visit α)}
    (hjoin : ∀ last visit, join last = .ok visit → visit.rest = last.rest) :
    Keeps total (top + 1) (flags + 1)
      ⟨call :: (left.calls ++ right.calls), right.result >>= join⟩ where
  inside := by
    refine List.forall_mem_cons.mpr ⟨hcall, List.forall_mem_append.mpr ⟨?_, ?_⟩⟩
    · exact fun other hmem => (h.inside other hmem).succ
    · exact fun other hmem => (h'.inside other hmem).succ
  calls_of_ok visit hvisit := by
    have hcalls := h.calls_of_ok found hleft
    rw [List.length_cons, List.length_append]
    cases hright : right.result with
    | error defect =>
        rw [hright] at hvisit
        exact nomatch hvisit
    | ok last =>
        rw [hright] at hvisit
        have hcalls' := h'.calls_of_ok last hright
        rw [hjoin last visit hvisit]
        omega
  calls_of_error defect hdefect := by
    have hcalls := h.calls_of_ok found hleft
    rw [List.length_cons, List.length_append]
    cases hright : right.result with
    | error other =>
        have hsame : other = defect := by
          rw [hright] at hdefect
          exact Except.error.inj hdefect
        have hcalls' := h'.calls_of_error defect (hsame ▸ hright)
        omega
    | ok last =>
        have hcalls' := h'.calls_of_ok last hright
        omega

theorem length_le {trace : Trace α} (h : trace.Keeps total top flags) :
    trace.calls.length ≤ flags + 1 ∧
      (trace.result ≠ .error .flagsExhausted → trace.calls.length ≤ flags) := by
  cases hresult : trace.result with
  | ok visit =>
      have hcalls := h.calls_of_ok visit hresult
      exact ⟨by omega, fun _ => by omega⟩
  | error defect =>
      have hcalls := h.calls_of_error defect hresult
      by_cases hlast : defect = .flagsExhausted
      · rw [if_pos hlast] at hcalls
        exact ⟨hcalls, fun hne => absurd (congrArg Except.error hlast) hne⟩
      · rw [if_neg hlast] at hcalls
        exact ⟨Nat.le_succ_of_le hcalls, fun _ => hcalls⟩

end Trace.Keeps

variable [DecidableEq α] (node : α → α → α) {position : BitVec 32}

/-- A call for a leaf, or one that reads a flag which is not set, goes no deeper. -/
theorem trace?_stop {flag : Bool} (hstop : k = 0 ∨ flag = false) (flags : List Bool)
    (hashes : List α) :
    ∃ result, trace? node total k position ⟨flag :: flags, hashes⟩ =
        some ⟨[⟨k, position⟩], result⟩ ∧
      result = walk node total.toNat k.toNat position.toNat ⟨flag :: flags, hashes⟩ ∧
      ∀ visit, result = .ok visit → visit.rest.flags = flags := by
  cases hashes with
  | nil =>
      rw [trace?, if_pos hstop]
      refine ⟨_, rfl, ?_, ?_⟩
      · rcases hstop with rfl | rfl
        · simp [walk]
        · cases k.toNat <;> rfl
      · intro visit hvisit
        cases hvisit
  | cons hash hashes =>
      rw [trace?, if_pos hstop]
      refine ⟨_, rfl, ?_, ?_⟩
      · rcases hstop with rfl | rfl
        · cases flag <;> simp [walk]
        · cases hj : k.toNat <;> simp [walk]
      · intro visit hvisit
        cases hvisit
        rfl

/-- A call that reads a set flag above the leaves, after its call for the left child. -/
theorem trace?_expand {below first second count : BitVec 32} {unread : Unread α} {left : Trace α}
    (hbelow : Word.pred? k = some below)
    (hfirst : Word.ofNat? 32 (2 * position.toNat) = some first)
    (hleft : trace? node total below first unread = some left)
    (hsecond : Word.ofNat? 32 (first.toNat + 1) = some second)
    (hcount : width? total below = some count) :
    trace? node total k position unread.expand =
      (match left.result with
      | .error defect => some ⟨⟨k, position⟩ :: left.calls, .error defect⟩
      | .ok found =>
        if second < count then
          (trace? node total below second found.rest).bind fun right =>
            some ⟨⟨k, position⟩ :: (left.calls ++ right.calls), do
              let last ← right.result
              if last.root = found.root then .error .equalSiblings
              else .ok ⟨node found.root last.root, found.matched ++ last.matched, last.rest⟩⟩
        else
          some ⟨⟨k, position⟩ :: left.calls,
            .ok ⟨node found.root found.root, found.matched, found.rest⟩⟩) := by
  have hgo : ¬ (k = 0 ∨ true = false) := by
    rintro (rfl | hfalse)
    · cases Word.pred?_eq_some_iff.mp hbelow
    · cases hfalse
  have htrace := trace?.eq_def node total k position unread.expand
  simp only [Unread.expand, if_neg hgo, hfirst, Option.bind_eq_bind, Option.bind_some] at htrace
  split at htrace
  · next hnone =>
    rw [hbelow] at hnone
    cases hnone
  · next below' hbelow' =>
    obtain rfl : below = below' := Option.some.inj (hbelow.symm.trans hbelow')
    simp only [hleft, hsecond, hcount, Option.bind_some] at htrace
    exact htrace

/-- The walk in words does what the walk in numbers does, and keeps to the tree. -/
def Follows (total k position : BitVec 32) (unread : Unread α) : Prop :=
  ∃ trace, trace? node total k position unread = some trace ∧
    trace.result = walk node total.toNat k.toNat position.toNat unread ∧
    trace.Keeps total.toNat k.toNat unread.flags.length

theorem follows_exhausted (hcall : Call.Inside total.toNat k.toNat ⟨k, position⟩)
    (hashes : List α) : Follows node total k position ⟨[], hashes⟩ :=
  ⟨_, by rw [trace?], by rw [walk], .exhausted hcall⟩

theorem follows_stop (hcall : Call.Inside total.toNat k.toNat ⟨k, position⟩) {flag : Bool}
    (hstop : k = 0 ∨ flag = false) (flags : List Bool) (hashes : List α) :
    Follows node total k position ⟨flag :: flags, hashes⟩ := by
  obtain ⟨result, htrace, hresult, hrest⟩ := trace?_stop node hstop flags hashes
  exact ⟨_, htrace, hresult, .stop hcall fun visit hvisit => by rw [hrest visit hvisit]⟩

/-- Where the walk is followed below a node, it is followed from the node on. -/
theorem follows_expand {below first second count : BitVec 32} {unread : Unread α}
    (hcall : Call.Inside total.toNat k.toNat ⟨k, position⟩) (hbelow : k.toNat = below.toNat + 1)
    (hfirst : first.toNat = 2 * position.toNat) (hsecond : second.toNat = first.toNat + 1)
    (hcount : width? total below = some count) (hwidth : count.toNat = width total.toNat below.toNat)
    (hleft : Follows node total below first unread)
    (hright : second.toNat < width total.toNat below.toNat →
      ∀ rest, Follows node total below second rest) :
    Follows node total k position unread.expand := by
  obtain ⟨left, hleft, hfound, hkeeps⟩ := hleft
  have htrace := trace?_expand node (Word.pred?_eq_some_iff.mpr hbelow)
    (Word.ofNat?_eq_some_iff.mpr hfirst) hleft (Word.ofNat?_eq_some_iff.mpr hsecond) hcount
  have hwalk := walk_expand node total.toNat below.toNat position.toNat unread
  rw [← hfirst, ← hfound, ← hsecond] at hwalk
  unfold Follows
  rw [hbelow] at hcall ⊢
  cases hresult : left.result with
  | error defect =>
      rw [hresult] at htrace hwalk
      exact ⟨_, htrace, hwalk.symm, .failed hcall hkeeps hresult⟩
  | ok found =>
      rw [hresult] at htrace hwalk
      by_cases hinner : second.toNat < width total.toNat below.toNat
      · have hlt : second < count := by rwa [BitVec.lt_def, hwidth]
        obtain ⟨right, hright, hlast, hkeeps'⟩ := hright hinner found.rest
        simp only [if_pos hlt, hright, Option.bind_some] at htrace
        change _ = (if second.toNat < width total.toNat below.toNat then _ else _) at hwalk
        rw [if_pos hinner, ← hlast] at hwalk
        refine ⟨_, htrace, hwalk.symm, .pair hcall hkeeps hresult hkeeps' ?_⟩
        intro last visit hvisit
        split at hvisit
        · cases hvisit
        · cases hvisit
          rfl
      · have hlt : ¬ second < count := by rwa [BitVec.lt_def, hwidth]
        simp only [if_neg hlt] at htrace
        change _ = (if second.toNat < width total.toNat below.toNat then _ else _) at hwalk
        rw [if_neg hinner] at hwalk
        exact ⟨_, htrace, hwalk.symm, .single hcall hkeeps hresult rfl⟩

/-- From every node of the tree on the walk is followed, whatever is unread. -/
theorem follows (total k position : BitVec 32) (hk : k.toNat ≤ 32)
    (hposition : position.toNat < width total.toNat k.toNat) (unread : Unread α) :
    Follows node total k position unread := by
  -- the induction is on the height, over all positions and all that is unread
  induction hj : k.toNat generalizing k position unread with
  | zero =>
      have hzero : k = 0 := BitVec.eq_of_toNat_eq hj
      have hcall : Call.Inside total.toNat k.toNat ⟨k, position⟩ := ⟨Nat.le_refl _, hposition⟩
      rcases unread with ⟨_ | ⟨flag, flags⟩, hashes⟩
      · exact follows_exhausted node hcall hashes
      · exact follows_stop node hcall (.inl hzero) flags hashes
  | succ j ih =>
      have hcall : Call.Inside total.toNat k.toNat ⟨k, position⟩ := ⟨Nat.le_refl _, hposition⟩
      rcases unread with ⟨_ | ⟨_ | _, flags⟩, hashes⟩
      · exact follows_exhausted node hcall hashes
      · exact follows_stop node hcall (.inr rfl) flags hashes
      · obtain ⟨below, -, rfl⟩ := Word.exists_pred? hj
        have htotal := total.isLt
        have hwidth := width_le_total total.toNat below.toNat
        have hinner : 2 * position.toNat < width total.toNat below.toNat :=
          two_mul_lt_width (by rwa [← hj])
        have hbelow : below.toNat ≤ 32 := by omega
        obtain ⟨first, -, hfirst⟩ := Word.exists_ofNat? 32 (2 * position.toNat) (by omega)
        obtain ⟨second, -, hsecond⟩ := Word.exists_ofNat? 32 (first.toNat + 1) (by omega)
        obtain ⟨count, hcount, hcountNat⟩ := exists_width? total hbelow
        change Follows node total k position (Unread.expand ⟨flags, hashes⟩)
        refine follows_expand node hcall hj hfirst hsecond hcount hcountNat ?_ ?_
        · exact ih below first hbelow (by rwa [hfirst]) ⟨flags, hashes⟩ rfl
        · exact fun hlt rest => ih below second hbelow hlt rest rfl

end Merkle

end LightPeer
