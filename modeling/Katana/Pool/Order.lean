import Katana.Pool.Pool

/-! The order of the pending transactions (Ord of PendingTx in tx.rs of the pool crate), for any
lawful order of the priorities. The time of the submission is not compared. -/
namespace Katana.TransactionPool
variable {T P O : Type} [PoolOrd O T P] {a b : PendingTx T P}

theorem afterEqual_eq_lt {o : Ordering} : afterEqual o=.lt ↔ o=.lt := by
  cases o <;> simp [afterEqual]

namespace PendingTx

theorem cmp_same_sender (h : a.id.sender=b.id.sender) : a.cmp O b=.lt ↔ a.id.nonce<b.id.nonce := by
  rw [cmp,if_pos h,afterEqual_eq_lt,compare_lt_iff_lt]

theorem cmp_other_sender (h : a.id.sender≠b.id.sender) :
    a.cmp O b=.lt ↔ PoolOrd.cmp O T a.priority b.priority=.lt := by
  rw [cmp,if_neg h,afterEqual_eq_lt]

theorem cmp_eq_gt : a.cmp O b=.gt ↔ a.cmp O b≠.lt := by
  have h := PendingTx.cmp_ne_eq (O:=O) a b
  revert h
  cases a.cmp O b <;> simp

end PendingTx

open PendingTx

/-- What a BTreeSet asks of the comparison of its elements, and nonces in order. -/
structure Lawful (O : Type) [PoolOrd O T P] (txs : List (PendingTx T P)) : Prop where
  irrefl : ∀ a∈txs, a.cmp O a≠.lt
  antisymm : ∀ a∈txs, ∀ b∈txs, a.id≠b.id → a.cmp O b=(b.cmp O a).swap
  trans : ∀ a∈txs, ∀ b∈txs, ∀ c∈txs, a.cmp O b=.lt → b.cmp O c=.lt → a.cmp O c=.lt
  nonce : ∀ a∈txs, ∀ b∈txs, a.id.sender=b.id.sender →
    (a.cmp O b=.lt ↔ a.id.nonce<b.id.nonce)

/-- Different senders have different priorities, and none stands between two transactions of
another sender whose priorities are against their nonces. -/
structure Compatible (O : Type) [PoolOrd O T P] (txs : List (PendingTx T P)) : Prop where
  noTie : ∀ a∈txs, ∀ b∈txs, a.id.sender≠b.id.sender →
    PoolOrd.cmp O T a.priority b.priority≠.eq
  notBetween : ∀ a∈txs, ∀ b∈txs, ∀ c∈txs, a.id.sender=b.id.sender → a.id.nonce<b.id.nonce →
    c.id.sender≠a.id.sender → PoolOrd.cmp O T b.priority c.priority=.lt →
    PoolOrd.cmp O T c.priority a.priority≠.lt

section
variable [Std.TransCmp (PoolOrd.cmp O T)] {txs : List (PendingTx T P)}

theorem Lawful.compatible (h : Lawful O txs) : Compatible O txs := by
  have hne {a b : PendingTx T P} (hs : a.id.sender≠b.id.sender) : a.id≠b.id :=
    fun he => hs (congrArg TxId.sender he)
  constructor
  · intro a ha b hb hs htie
    have hback : PoolOrd.cmp O T b.priority a.priority=.eq := Std.OrientedCmp.eq_symm htie
    have hswap := h.antisymm a ha b hb (hne hs)
    rw [PendingTx.cmp,PendingTx.cmp,if_neg hs,if_neg (Ne.symm hs),htie,hback] at hswap
    cases hswap
  · intro a ha b hb c hc hs hn hsc hbc hca
    have hac := h.trans a ha b hb c hc ((cmp_same_sender hs).mpr hn)
      ((cmp_other_sender (hs ▸ Ne.symm hsc)).mpr hbc)
    have hlt := (cmp_other_sender (O:=O) hsc).mpr hca
    rw [h.antisymm a ha c hc (hne (Ne.symm hsc)),hlt] at hac
    cases hac

theorem Compatible.lt_of_not_lt (h : Compatible O txs) (ha : a∈txs) (hb : b∈txs)
    (hs : a.id.sender≠b.id.sender) (hlt : PoolOrd.cmp O T b.priority a.priority≠.lt) :
    PoolOrd.cmp O T a.priority b.priority=.lt := by
  have htie := h.noTie a ha b hb hs
  have hgt : PoolOrd.cmp O T a.priority b.priority≠.gt := mt Std.OrientedCmp.lt_of_gt hlt
  revert htie hgt
  cases PoolOrd.cmp O T a.priority b.priority <;> simp

theorem Compatible.trans (h : Compatible O txs) (hids : (txs.map PendingTx.id).Nodup)
    {c : PendingTx T P} (ha : a∈txs) (hb : b∈txs) (hc : c∈txs) (hab : a.cmp O b=.lt)
    (hbc : b.cmp O c=.lt) : a.cmp O c=.lt := by
  by_cases hs : a.id.sender=b.id.sender
  · have hn := (cmp_same_sender hs).mp hab
    by_cases hs' : b.id.sender=c.id.sender
    · exact (cmp_same_sender (hs.trans hs')).mpr
        (hn.trans ((cmp_same_sender hs').mp hbc))
    · have hsc : a.id.sender≠c.id.sender := fun he => hs' (hs.symm.trans he)
      refine (cmp_other_sender hsc).mpr (h.lt_of_not_lt ha hc hsc ?_)
      exact h.notBetween a ha b hb c hc hs hn (Ne.symm hsc) ((cmp_other_sender hs').mp hbc)
  · have hp := (cmp_other_sender hs).mp hab
    by_cases hs' : b.id.sender=c.id.sender
    · have hsc : a.id.sender≠c.id.sender := fun he => hs (he.trans hs'.symm)
      refine (cmp_other_sender hsc).mpr (h.lt_of_not_lt ha hc hsc ?_)
      intro hca
      exact h.notBetween b hb c hc a ha hs' ((cmp_same_sender hs').mp hbc) hs hca hp
    · have hp' := (cmp_other_sender hs').mp hbc
      have hac := Std.TransCmp.lt_trans hp hp'
      by_cases hsc : a.id.sender=c.id.sender
      · refine (cmp_same_sender hsc).mpr (lt_of_not_ge fun hle => ?_)
        rcases hle.lt_or_eq with hlt | heq
        · exact h.notBetween c hc a ha b hb hsc.symm hlt hs' hp hp'
        · -- one and the same transaction would be below itself
          have hid : a.id=c.id := by
            cases ha' : a.id
            cases hc' : c.id
            simp_all
          obtain rfl := List.inj_on_of_nodup_map hids ha hc hid
          have hself : PoolOrd.cmp O T a.priority a.priority=.eq := Std.ReflCmp.compare_self
          cases hac.symm.trans hself
      · exact (cmp_other_sender hsc).mpr hac

theorem Compatible.antisymm (h : Compatible O txs) (ha : a∈txs) (hb : b∈txs) (hid : a.id≠b.id) :
    a.cmp O b=(b.cmp O a).swap := by
  have hiff : a.cmp O b=.lt ↔ b.cmp O a≠.lt := by
    by_cases hs : a.id.sender=b.id.sender
    · rw [cmp_same_sender hs,Ne,cmp_same_sender hs.symm,not_lt]
      refine ⟨le_of_lt,fun hle => lt_of_le_of_ne hle fun he => hid ?_⟩
      cases ha' : a.id
      cases hb' : b.id
      simp_all
    · rw [cmp_other_sender hs,Ne,cmp_other_sender (Ne.symm hs)]
      refine ⟨fun hlt hgt => ?_,h.lt_of_not_lt ha hb hs⟩
      cases (Std.OrientedCmp.gt_of_lt hlt).symm.trans hgt
  by_cases hlt : a.cmp O b=.lt
  · rw [hlt,cmp_eq_gt.mpr (hiff.mp hlt)]
    rfl
  · rw [cmp_eq_gt.mpr hlt,not_not.mp (mt hiff.mpr hlt)]
    rfl

theorem Compatible.lawful (h : Compatible O txs) (hids : (txs.map PendingTx.id).Nodup) :
    Lawful O txs where
  irrefl _ _ hlt := lt_irrefl _ ((cmp_same_sender rfl).mp hlt)
  antisymm _ ha _ hb hid := h.antisymm ha hb hid
  trans _ ha _ hb _ hc hab hbc := h.trans hids ha hb hc hab hbc
  nonce _ _ _ _ hs := cmp_same_sender hs

/-- The comparison orders a set of transactions exactly when their priorities are compatible with
their nonces. -/
theorem pool_order_lawful_iff (hids : (txs.map PendingTx.id).Nodup) :
    Lawful O txs ↔ Compatible O txs := ⟨Lawful.compatible,fun h => h.lawful hids⟩

end

instance : Std.TransCmp (PoolOrd.cmp FiFo Unit) :=
  inferInstanceAs (Std.TransCmp (compare : Nat → Nat → Ordering))

theorem submitted_in_nonce_order_lawful :
    let txs : List (PendingTx Unit Nat) := [⟨⟨1,1⟩,(),5⟩,⟨⟨2,0⟩,(),10⟩,⟨⟨1,2⟩,(),30⟩]
    (txs.map PendingTx.id).Nodup ∧ Lawful FiFo txs := by
  intro txs
  have hids : (txs.map PendingTx.id).Nodup := by decide
  exact ⟨hids,(pool_order_lawful_iff hids).mpr ⟨by decide,by decide⟩⟩

section
variable {txs : List (PendingTx T P)}

def insertAll (O : Type) [PoolOrd O T P] (txs : List (PendingTx T P)) : List (PendingTx T P) :=
  txs.foldl (fun set tx => insertPending O tx set) []

theorem Lawful.mono {ts : List (PendingTx T P)} (h : Lawful O txs) (hsub : ts⊆txs) :
    Lawful O ts where
  irrefl a ha := h.irrefl a (hsub ha)
  antisymm a ha b hb := h.antisymm a (hsub ha) b (hsub hb)
  trans a ha b hb c hc := h.trans a (hsub ha) b (hsub hb) c (hsub hc)
  nonce a ha b hb := h.nonce a (hsub ha) b (hsub hb)

theorem Lawful.insertPending {tx : PendingTx T P} (h : Lawful O (tx::txs))
    (hid : ∀ t∈txs, t.id≠tx.id) (hs : txs.Pairwise fun a b => a.cmp O b=.lt) :
    (insertPending O tx txs).Pairwise fun a b => a.cmp O b=.lt := by
  induction txs with
  | nil => exact List.pairwise_singleton _ tx
  | cons t ts ih =>
    have hts := List.pairwise_cons.mp hs
    unfold TransactionPool.insertPending
    cases hc : tx.cmp O t with
    | eq => exact absurd hc (cmp_ne_eq tx t)
    | lt =>
      refine List.pairwise_cons.mpr ⟨?_,hs⟩
      intro u hu
      rcases List.mem_cons.mp hu with rfl | hu
      · exact hc
      · exact h.trans tx (by simp) t (by simp) u (by simp [hu]) hc (hts.1 u hu)
    | gt =>
      have hlt : t.cmp O tx=.lt := by
        rw [h.antisymm t (by simp) tx (by simp) (hid t (by simp)),hc]
        rfl
      have hmono : Lawful O (tx::ts) := h.mono (List.cons_subset_cons tx (List.subset_cons_self t ts))
      refine List.pairwise_cons.mpr ⟨?_,ih hmono (fun u hu => hid u (by simp [hu])) hts.2⟩
      intro u hu
      rcases List.mem_cons.mp ((insertPending_perm tx ts).mem_iff.mp hu) with rfl | hu
      · exact hlt
      · exact hts.1 u hu

theorem insertAll_perm (txs : List (PendingTx T P)) : (insertAll O txs).Perm txs := by
  induction txs using List.reverseRecOn with
  | nil => exact List.Perm.refl _
  | append_singleton ts t ih =>
    rw [insertAll,List.foldl_append]
    exact (insertPending_perm t _).trans ((ih.cons t).trans (List.perm_append_singleton t ts).symm)

theorem Lawful.insertAll (h : Lawful O txs) (hids : (txs.map PendingTx.id).Nodup) :
    (insertAll O txs).Pairwise fun a b => a.cmp O b=.lt := by
  induction txs using List.reverseRecOn with
  | nil => exact List.Pairwise.nil
  | append_singleton ts t ih =>
    rw [List.map_append,List.nodup_append] at hids
    rw [TransactionPool.insertAll,List.foldl_append]
    have hset {u : PendingTx T P} : u∈TransactionPool.insertAll O ts ↔ u∈ts :=
      (insertAll_perm ts).mem_iff
    refine Lawful.insertPending (h.mono ?_) ?_ (ih (h.mono (List.subset_append_left ts [t])) hids.1)
    · intro u hu
      rcases List.mem_cons.mp hu with rfl | hu
      · simp
      · exact List.mem_append_left _ (hset.mp hu)
    · intro u hu
      exact hids.2.2 u.id (List.mem_map_of_mem (hset.mp hu)) t.id (by simp)

end

/-- Nonce 1 is below nonce 2, nonce 2 below the other sender and that one below nonce 1; the set
then lists nonce 2 first. Equal priorities are above each other. -/
theorem priorities_against_nonces_cycle :
    let txs : List (PendingTx Unit Nat) := [⟨⟨2,0⟩,(),10⟩,⟨⟨1,1⟩,(),30⟩,⟨⟨1,2⟩,(),5⟩]
    let tie : List (PendingTx Unit Nat) := [⟨⟨1,0⟩,(),7⟩,⟨⟨2,0⟩,(),7⟩]
    (txs.map PendingTx.id).Nodup ∧ ¬Lawful FiFo txs ∧
      (insertAll FiFo txs).map PendingTx.id=[⟨1,2⟩,⟨2,0⟩,⟨1,1⟩] ∧
    (tie.map PendingTx.id).Nodup ∧ ¬Lawful FiFo tie := by
  intro txs tie
  refine ⟨by decide,?_,by decide,by decide,?_⟩
  · intro h
    have hlt := h.trans ⟨⟨1,1⟩,(),30⟩ (by simp [txs]) ⟨⟨1,2⟩,(),5⟩ (by simp [txs])
      ⟨⟨2,0⟩,(),10⟩ (by simp [txs]) (by decide) (by decide)
    exact absurd hlt (by decide)
  · intro h
    have hswap := h.antisymm ⟨⟨1,0⟩,(),7⟩ (by simp [tie]) ⟨⟨2,0⟩,(),7⟩ (by simp [tie])
      (by decide)
    exact absurd hswap (by decide)

end Katana.TransactionPool
