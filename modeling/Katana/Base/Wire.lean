import Katana.Base.ByteOrder

/-! Formats that write a value as its bare fields: numbers in groups of seven bits, sequences
after their length, alternatives after their index. A reader takes a value from the front of
the input and hands on what it leaves; it reads back what the writer wrote before anything. -/

structure Wire (α : Type*) where
  encode : α → Bytes
  decode : Bytes → Option (α × Bytes)
  decode_encode : ∀ a rest, decode (encode a++rest)=some (a,rest)

namespace Wire
variable {α β : Type*} {f : Wire α} {bs rest : Bytes} {n : Nat} {b : Byte}

attribute [simp] decode_encode

@[simp] theorem decode_self (f : Wire α) (a : α) : f.decode (f.encode a)=some (a,[]) := by
  simpa using f.decode_encode a []

def fromBytes (f : Wire α) (bs : Bytes) : Option α := (f.decode bs).map Prod.fst

@[simp] theorem fromBytes_encode (f : Wire α) (a : α) : f.fromBytes (f.encode a)=some a := by
  simp [fromBytes]

theorem fromBytes_none (h : f.decode bs=none) : f.fromBytes bs=none := by
  simp [fromBytes,h]

section Fields

def unit : Wire Unit where
  encode _ := []
  decode bs := some ((),bs)
  decode_encode _ _ := rfl

def pair (f : Wire α) (g : Wire β) : Wire (α × β) where
  encode v := f.encode v.1++g.encode v.2
  decode bs := (f.decode bs).bind fun r => (g.decode r.2).map fun s => ((r.1,s.1),s.2)
  decode_encode v rest := by simp

theorem pair_encode (f : Wire α) (g : Wire β) (v : α × β) :
    (f.pair g).encode v=f.encode v.1++g.encode v.2 := rfl

@[simp] theorem pair_decode_encode (f : Wire α) (g : Wire β) (a : α) (bs : Bytes) :
    (f.pair g).decode (f.encode a++bs)=(g.decode bs).map fun s => ((a,s.1),s.2) := by
  simp [pair]

theorem pair_decode_none (h : f.decode bs=none) (g : Wire β) : (f.pair g).decode bs=none := by
  simp [pair,h]

theorem pair_decode_eq_some {g : Wire β} {r : (α × β) × Bytes} (h : (f.pair g).decode bs=some r) :
    ∃ u, f.decode bs=some u ∧ g.decode u.2=some (r.1.2,r.2) := by
  simp only [pair,Option.bind_eq_some_iff,Option.map_eq_some_iff] at h
  obtain ⟨u,hu,v,hv,rfl⟩ := h
  exact ⟨u,hu,hv⟩

/-- Another type with the same bytes, where some of what is read may be refused. -/
def refine (f : Wire α) (pack : α → Option β) (unpack : β → α)
    (inverse : ∀ b, pack (unpack b)=some b) : Wire β where
  encode b := f.encode (unpack b)
  decode bs := (f.decode bs).bind fun r => (pack r.1).map fun b => (b,r.2)
  decode_encode b rest := by simp [inverse]

variable (f : Wire α) (pack : α → β) (unpack : β → α) (inverse : ∀ b, pack (unpack b)=b)

def iso : Wire β where
  encode b := f.encode (unpack b)
  decode bs := (f.decode bs).map fun r => (pack r.1,r.2)
  decode_encode b rest := by simp [inverse]

@[simp] theorem iso_encode (b : β) : (f.iso pack unpack inverse).encode b=f.encode (unpack b) := rfl

@[simp] theorem iso_decode (bs : Bytes) :
    (f.iso pack unpack inverse).decode bs=(f.decode bs).map fun r => (pack r.1,r.2) := rfl

end Fields

section Numbers

/-- At most k groups of seven bits, the least significant first; the high bit says that more
bytes follow. -/
def leb : Nat → Nat → Bytes
  | 0,_ => []
  | k+1,n => if n<128 then [Fin.ofNat 256 n] else Fin.ofNat 256 (n%128+128)::leb k (n/128)

def unleb : Nat → Bytes → Option (Nat × Bytes)
  | 0,_ => none
  | _+1,[] => none
  | k+1,b::bs => if b.val<128 then some (b.val,bs)
    else (unleb k bs).map fun r => (b.val-128+128*r.1,r.2)

theorem leb_length (k n : Nat) : (leb k n).length≤k := by
  induction k generalizing n with
  | zero => simp [leb]
  | succ k ih =>
    unfold leb
    split
    · simp
    · simpa using ih (n/128)

/-- What a reader takes from a number is that number or nothing, however many bytes it may
take. -/
theorem unleb_leb (j k n : Nat) (rest : Bytes) (hn : n<128^(j+1)) :
    unleb k (leb (j+1) n++rest)=if (leb (j+1) n).length≤k then some (n,rest) else none := by
  induction j generalizing k n with
  | zero =>
    have h : n<128 := by simpa using hn
    have hv : n%256=n := Nat.mod_eq_of_lt (by omega)
    cases k <;> simp [leb,h,unleb,hv]
  | succ j ih =>
    unfold leb
    by_cases h : n<128
    · have hv : n%256=n := Nat.mod_eq_of_lt (by omega)
      cases k <;> simp [h,unleb,hv]
    · have hv : (n%128+128)%256=n%128+128 := Nat.mod_eq_of_lt (by omega)
      have hdiv : n%128+128*(n/128)=n := Nat.mod_add_div n 128
      have hlt : n/128<128^(j+1) := by
        rw [Nat.div_lt_iff_lt_mul (by decide)]
        simpa [Nat.pow_succ] using hn
      cases k with
      | zero => simp [h,unleb]
      | succ k =>
        have hmore : ¬n%128+128<128 := by omega
        simp only [h,if_false,List.cons_append,unleb,Fin.val_ofNat,hv,hmore,ih k (n/128) hlt,
          List.length_cons,Nat.add_le_add_iff_right]
        split <;> simp [hdiv]

def moreGroups (w : Nat) : Nat := (w-1)/7

variable {w : Nat} {r : BitVec w × Bytes}

theorem lt_groups (h : n<2^w) : n<128^(moreGroups w+1) := by
  have hpow : 2^w≤128^(moreGroups w+1) := by
    rw [show 128=2^7 from rfl,←Nat.pow_mul]
    exact Nat.pow_le_pow_right (by decide) (by unfold moreGroups; omega)
  omega

def uint (w : Nat) : Wire (BitVec w) where
  encode x := leb (moreGroups w+1) x.toNat
  decode bs := (unleb (moreGroups w+1) bs).bind fun r =>
    if r.1<2^w then some (BitVec.ofNat w r.1,r.2) else none
  decode_encode x rest := by
    simp [unleb_leb _ _ _ _ (lt_groups x.isLt),leb_length,x.isLt]

def below (w : Nat) : Wire {n : Nat // n<2^w} :=
  (uint w).iso (fun x => ⟨x.toNat,x.isLt⟩) (fun n => BitVec.ofNatLT n.val n.property) fun _ => rfl

theorem lt_pow_succ_self (n : Nat) : n<128^(n+1) :=
  (Nat.lt_succ_self n).trans (Nat.lt_pow_self (by decide))

def count : Wire Nat where
  encode n := leb (n+1) n
  decode bs := unleb bs.length bs
  decode_encode n rest := by simp [unleb_leb _ _ _ _ (lt_pow_succ_self n)]

theorem uint_decode_leb {j : Nat} (hn : n<128^(j+1))
    (h : (uint w).decode (leb (j+1) n++rest)=some r) : r.1.toNat=n ∧ r.2=rest := by
  simp only [uint,unleb_leb _ _ _ _ hn] at h
  split at h
  · rw [Option.bind_some] at h
    split at h
    · next hw =>
      rw [Option.some.injEq] at h
      subst h
      exact ⟨by simpa using Nat.mod_eq_of_lt hw,rfl⟩
    · cases h
  · cases h

theorem uint_decode_uint {v : Nat} {x : BitVec v}
    (h : (uint w).decode ((uint v).encode x++rest)=some r) : r.1.toNat=x.toNat ∧ r.2=rest :=
  uint_decode_leb (lt_groups x.isLt) h

theorem leb_length_of_lt (k j : Nat) (hn : n<128^(k+1)) : (leb j n).length≤k+1 := by
  induction k generalizing j n with
  | zero => cases j <;> simp [leb,show n<128 by simpa using hn]
  | succ k ih =>
    cases j with
    | zero => simp [leb]
    | succ j =>
      unfold leb
      split
      · simp
      · have hlt : n/128<128^(k+1) := by
          rw [Nat.div_lt_iff_lt_mul (by decide)]
          simpa [Nat.pow_succ] using hn
        simpa using ih j hlt

/-- A number is read at another width exactly if it fits that width. -/
theorem uint_decode_width {v : Nat} (x : BitVec v) (rest : Bytes) :
    (uint w).decode ((uint v).encode x++rest)=
      if x.toNat<2^w then some (BitVec.ofNat w x.toNat,rest) else none := by
  by_cases hx : x.toNat<2^w
  · have hl := leb_length_of_lt (moreGroups w) (moreGroups v+1) (lt_groups hx)
    simp [uint,unleb_leb _ _ _ _ (lt_groups x.isLt),hl,hx]
  · simp only [uint,unleb_leb _ _ _ _ (lt_groups x.isLt),hx,if_false]
    split <;> simp [hx]

theorem uint_decode_narrow {v : Nat} (h : v≤w) (x : BitVec v) (rest : Bytes) :
    (uint w).decode ((uint v).encode x++rest)=some (BitVec.ofNat w x.toNat,rest) := by
  rw [uint_decode_width,if_pos (x.isLt.trans_le (Nat.pow_le_pow_right (by decide) h))]

theorem count_decode_uint (x : BitVec w) (rest : Bytes) :
    count.decode ((uint w).encode x++rest)=some (x.toNat,rest) := by
  simp [count,uint,unleb_leb _ _ _ _ (lt_groups x.isLt)]

theorem uint_decode_byte (hw : 7≤w) (hb : b.val<128) (bs : Bytes) :
    (uint w).decode (b::bs)=some (BitVec.ofNat w b.val,bs) := by
  have hlt : b.val<2^w := hb.trans_le (by simpa using Nat.pow_le_pow_right (n:=2) (by decide) hw)
  simp [uint,unleb,hb,hlt]

@[simp] theorem uint_decode_nil (w : Nat) : (uint w).decode []=none := by
  simp [uint,unleb]

theorem count_decode_byte (hb : b.val<128) (bs : Bytes) : count.decode (b::bs)=some (b.val,bs) := by
  simp [count,unleb,hb]

end Numbers

section Sequences

def many (f : Wire α) : Nat → Bytes → Option (List α × Bytes)
  | 0,bs => some ([],bs)
  | n+1,bs => (f.decode bs).bind fun r => (f.many n r.2).map fun s => (r.1::s.1,s.2)

def run (f : Wire α) (xs : List α) : Bytes := xs.flatMap f.encode

@[simp] theorem run_nil (f : Wire α) : f.run []=[] := rfl

@[simp] theorem run_cons (f : Wire α) (x : α) (xs : List α) :
    f.run (x::xs)=f.encode x++f.run xs := by
  simp [run]

theorem run_append (f : Wire α) (xs ys : List α) : f.run (xs++ys)=f.run xs++f.run ys := by
  simp [run]

theorem many_run (f : Wire α) (xs : List α) (rest : Bytes) :
    f.many xs.length (f.run xs++rest)=some (xs,rest) := by
  induction xs with
  | nil => simp [many]
  | cons x xs ih => simp [many,ih]

/-- Reading any number of values from a run that nothing readable follows leaves a run. -/
theorem many_leaves_run (f : Wire α) (hrest : f.decode rest=none) (n : Nat) (xs : List α)
    {r : List α × Bytes} (h : f.many n (f.run xs++rest)=some r) : ∃ ys, r.2=f.run ys++rest := by
  induction n generalizing xs r with
  | zero =>
    simp only [many,Option.some.injEq] at h
    exact ⟨xs,by rw [←h]⟩
  | succ n ih =>
    cases xs with
    | nil => simp [many,hrest] at h
    | cons x xs =>
      simp only [run_cons,List.append_assoc,many,decode_encode,Option.bind_some,
        Option.map_eq_some_iff] at h
      obtain ⟨s,hs,rfl⟩ := h
      obtain ⟨ys,hys⟩ := ih xs hs
      exact ⟨ys,hys⟩

theorem many_none (h : f.decode bs=none) (hn : 0<n) : f.many n bs=none := by
  obtain ⟨m,rfl⟩ : ∃ m, n=m+1 := ⟨n-1,by omega⟩
  simp [many,h]

def list (f : Wire α) : Wire (List α) where
  encode xs := count.encode xs.length++f.run xs
  decode bs := (count.decode bs).bind fun r => f.many r.1 r.2
  decode_encode xs rest := by simp [many_run]

def byteString : Wire Bytes where
  encode v := count.encode v.length++v
  decode bs := (count.decode bs).bind fun r =>
    if r.2.length<r.1 then none else some (r.2.take r.1,r.2.drop r.1)
  decode_encode v rest := by simp

end Sequences

section Alternatives

def index : Wire (BitVec 32) := uint 32

def branch (f : Wire β) (build : β → α) (bs : Bytes) : Option (α × Bytes) :=
  (f.decode bs).map fun r => (build r.1,r.2)

variable (branches : List (Bytes → Option (α × Bytes)))

def choose (bs : Bytes) : Option (α × Bytes) :=
  (index.decode bs).bind fun r => branches[r.1.toNat]?.bind fun d => d r.2

@[simp] theorem branch_encode (f : Wire β) (build : β → α) (b : β) (rest : Bytes) :
    branch f build (f.encode b++rest)=some (build b,rest) := by
  simp [branch]

theorem branch_none {f : Wire β} (h : f.decode bs=none) (build : β → α) :
    branch f build bs=none := by
  simp [branch,h]

@[simp] theorem choose_index (i : BitVec 32)
    (bs : Bytes) : choose branches (index.encode i++bs)=branches[i.toNat]?.bind fun d => d bs := by
  simp [choose]

/-- No alternative is chosen where those with a number that is read do not go on. -/
theorem choose_none {branches : List (Bytes → Option (α × Bytes))}
    (h : ∀ r, index.decode bs=some r → ∀ d∈branches[r.1.toNat]?, d r.2=none) :
    choose branches bs=none := by
  cases hr : index.decode bs with
  | none => simp [choose,hr]
  | some r =>
    cases hd : branches[r.1.toNat]? with
    | none => simp [choose,hr,hd]
    | some d => simp [choose,hr,hd,h r hr d hd]

/-- A number of any width is taken for that of an alternative. -/
theorem choose_uint {v : Nat} {branches : List (Bytes → Option (α × Bytes))}
    (h : branches.length≤2^32) (x : BitVec v) (bs : Bytes) :
    choose branches ((uint v).encode x++bs)=branches[x.toNat]?.bind fun d => d bs := by
  by_cases hx : x.toNat<2^32
  · simp [choose,index,uint_decode_width,hx,Nat.mod_eq_of_lt hx,-Nat.reducePow]
  · rw [List.getElem?_eq_none (by omega)]
    simp [choose,index,uint_decode_width,hx,-Nat.reducePow]

theorem choose_byte (hb : b.val<128) (bs : Bytes) :
    choose branches (b::bs)=branches[b.val]?.bind fun d => d bs := by
  have hb' : b.val%4294967296=b.val := Nat.mod_eq_of_lt (hb.trans (by decide))
  simp [choose,index,uint_decode_byte (show 7≤32 by decide) hb,hb']

theorem choose_byte_none {branches : List (Bytes → Option (α × Bytes))} (hb : b.val<128)
    (h : branches.length≤b.val) (bs : Bytes) : choose branches (b::bs)=none := by
  rw [choose_byte branches hb,List.getElem?_eq_none h]
  rfl

end Alternatives
end Wire
