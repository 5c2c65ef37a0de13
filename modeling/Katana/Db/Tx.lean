import Katana.Base.Faulty
import Katana.Db.Store

/-! Read-write transactions (mdbx/tx.rs, mdbx/cursor.rs, abstraction/mod.rs). Every
table read, cursor call, value encoding and table write is one operation that can
fail; a failed one ends the closure. -/
namespace Katana

/-- How an operation fails. For some failures libmdbx marks the transaction, and its
commit then discards the writes. -/
structure TxFault where
  error : ProviderError
  aborts : Bool := false
  deriving DecidableEq, Repr

abbrev TxM (P : Payloads) := Faulty TxFault (Db P)

/-- What the environment does during one call: whether the transaction starts and
commits, and which operations fail. -/
structure TxEnv where
  begin : Option DatabaseError := none
  commit : Option DatabaseError := none
  faults : Nat → Option TxFault := fun _ => none

section Calls
variable {ε σ α β : Type} {m : EStateM ε σ α} {s s' : σ}

theorem bind_ok {a : α} (h : m s=.ok a s') (f : α → EStateM ε σ β) : (m>>=f) s=f a s' := by
  simp only [bind,EStateM.bind,h]

theorem bind_error {e : ε} (h : m s=.error e s') (f : α → EStateM ε σ β) :
    (m>>=f) s=.error e s' := by
  simp only [bind,EStateM.bind,h]

end Calls

/-- How a call of the provider ends without a value. -/
inductive Failure (ε : Type) where
  | err (e : ε)
  | panic (message : String)
  deriving DecidableEq, Repr

/-- Calls one after the other: what they committed before a failure stays. -/
abbrev CallM (P : Payloads) (ε : Type) := EStateM (Failure ε) (Db P)

namespace DbTx
variable {P : Payloads}

def read {α : Type} (f : Db P → Except ProviderError α) : TxM P α :=
  Faulty.op (fun db => match f db with
    | .ok a => .ok (a,db)
    | .error e => .error { error := e })

def write (f : Db P → Db P) : TxM P Unit := Faulty.op (fun db => .ok ((),f db))

def entries (t : Table) : TxM P Nat := read (fun db => .ok (db.entries t))

def get (t : Table) (k : t.Key) : TxM P (Option (t.Value P)) := read (fun db => .ok (db.get t k))

/-- The value is compressed before the table is written. -/
def compress : TxM P Unit := read (fun _ => .ok ())

def put (t : Table) (k : t.Key) (v : t.Value P) : TxM P Unit := do
  compress
  write (Db.put t k v)

def putDup (t : DupTable) (k : t.Key) (v : Bytes) : TxM P Unit := do
  compress
  write (Db.putDup t k v)

def cursorDupMut : TxM P Unit := read (fun _ => .ok ())

/-- Positions the cursor; returns the row it is on and the decoded value. -/
def seekByKeySubkey {α : Type} (t : DupTable) (k : t.Key) (subkey : Bytes)
    (decode : Bytes → Except CodecError α) : TxM P (Option (Bytes × α)) :=
  read (fun db => match db.seek t k subkey with
    | none => .ok none
    | some raw =>
      match decode raw with
      | .ok v => .ok (some (raw,v))
      | .error e => .error (.database (.codec e)))

def deleteCurrent (t : DupTable) (k : t.Key) (raw : Bytes) : TxM P Unit :=
  write (Db.deleteDup t k raw)

/-- The transaction is committed whatever the closure returned. -/
def update {α : Type} (env : TxEnv) (f : TxM P α) (db : Db P) :
    Except DatabaseError (Except TxFault α) × Db P :=
  match env.begin with
  | some e => (.error e,db)
  | none =>
    let r := f env.faults db 0
    match env.commit with
    | some e => (.error e,db)
    | none =>
      match r.1 with
      | .ok a => (.ok (.ok a),r.2.1)
      | .error f => (.ok (.error f),if f.aborts then db else r.2.1)

section Runs
variable {α β : Type} {db : Db P} {Q : β → Db P → Prop} {R : Unit → Db P → Prop}

theorem ensures_read {f : Db P → Except ProviderError α} {a : α} (hf : f db=.ok a) :
    Faulty.Ensures (read f) db (fun b s => b=a ∧ s=db) :=
  Faulty.ensures_op (by simp only [hf]) ⟨rfl,rfl⟩

theorem read_then {f : Db P → Except ProviderError α} {a : α} {g : α → TxM P β}
    (hf : f db=.ok a) (h : Faulty.Ensures (g a) db Q) :
    Faulty.Ensures (read f>>=g) db Q := by
  refine (ensures_read hf).bind ?_
  rintro _ _ ⟨rfl,rfl⟩
  exact h

theorem ensures_write {f : Db P → Db P} (h : R () (f db)) : Faulty.Ensures (write f) db R :=
  Faulty.ensures_op rfl h

theorem ensures_put {t : Table} {k : t.Key} {v : t.Value P} (h : R () (db.put t k v)) :
    Faulty.Ensures (put t k v) db R :=
  read_then rfl (ensures_write h)

theorem ensures_putDup {t : DupTable} {k : t.Key} {v : Bytes} (h : R () (db.putDup t k v)) :
    Faulty.Ensures (putDup t k v) db R :=
  read_then rfl (ensures_write h)

theorem put_then {t : Table} {k : t.Key} {v : t.Value P} {g : Unit → TxM P β}
    (h : Faulty.Ensures (g ()) (db.put t k v) Q) : Faulty.Ensures (put t k v>>=g) db Q :=
  (ensures_put (R := fun _ s => s=db.put t k v) rfl).bind (fun _ _ hs => hs ▸ h)

theorem putDup_then {t : DupTable} {k : t.Key} {v : Bytes} {g : Unit → TxM P β}
    (h : Faulty.Ensures (g ()) (db.putDup t k v) Q) : Faulty.Ensures (putDup t k v>>=g) db Q :=
  (ensures_putDup (R := fun _ s => s=db.putDup t k v) rfl).bind (fun _ _ hs => hs ▸ h)

theorem get_then {t : Table} {k : t.Key} {g : Option (t.Value P) → TxM P β}
    (h : Faulty.Ensures (g (db.get t k)) db Q) : Faulty.Ensures (get t k>>=g) db Q :=
  read_then rfl h

end Runs

section Faults
variable {F : Nat → Option TxFault} {t : Table} {k : t.Key} {v : t.Value P} {e : TxFault} {n : Nat}

theorem read_fault {α : Type} (f : Db P → Except ProviderError α) (h : F n=some e) (s : Db P) :
    read f F s n=(.error e,s,n+1) := by
  unfold read
  exact Faulty.op_fault h s

theorem read_ok {α : Type} {f : Db P → Except ProviderError α} {a : α} {s : Db P} (h : F n=none)
    (hf : f s=.ok a) : read f F s n=(.ok a,s,n+1) := by
  unfold read
  exact Faulty.op_ok h (by simp only [hf])

theorem put_fault_compress (h : F n=some e) (s : Db P) : put t k v F s n=(.error e,s,n+1) := by
  unfold put compress
  exact Faulty.bind_error (read_fault _ h s) _

theorem put_fault_write (h : F n=none) (h' : F (n+1)=some e) (s : Db P) :
    put t k v F s n=(.error e,s,n+2) := by
  have hc : compress F s n=(.ok (),s,n+1) := read_ok h rfl
  unfold put
  rw [Faulty.bind_ok hc]
  exact Faulty.op_fault h' s

theorem put_ok (h : F n=none) (h' : F (n+1)=none) (s : Db P) :
    put t k v F s n=(.ok (),s.put t k v,n+2) := by
  have hc : compress F s n=(.ok (),s,n+1) := read_ok h rfl
  unfold put
  rw [Faulty.bind_ok hc]
  exact Faulty.op_ok h' rfl

end Faults

section Frames
variable {α β : Type} {I : Db P → Prop}

theorem preserves_read (f : Db P → Except ProviderError α) : Faulty.Preserves I (read f) := by
  refine Faulty.preserves_op ?_
  intro s a s' hs hf
  cases h : f s with
  | ok b =>
    simp only [h,Except.ok.injEq,Prod.mk.injEq] at hf
    exact hf.2 ▸ hs
  | error e => simp [h] at hf

theorem preserves_write {f : Db P → Db P} (h : ∀ s, I s → I (f s)) :
    Faulty.Preserves I (write f) := by
  refine Faulty.preserves_op ?_
  rintro s a s' hs ⟨rfl⟩
  exact h s hs

theorem preserves_put {t : Table} {k : t.Key} {v : t.Value P} (h : ∀ s, I s → I (s.put t k v)) :
    Faulty.Preserves I (put t k v) :=
  (preserves_read _).bind (fun _ => preserves_write h)

end Frames
end DbTx
end Katana
