import Katana.Base.BitString
import Katana.Db.Codecs
import Katana.Base.SortedMap

/-! The nodes of a multiproof as the storage proof methods return them (rpc-types trie.rs). -/
namespace Katana.Rpc
open BitString

inductive ProofNode where
  | binary (left right : Felt)
  | edge (child : Felt) (path : List Bool)
  deriving DecidableEq, Repr

inductive MerkleNode where
  | binary (left right : Felt)
  | edge (path : Felt) (length : Fin 256) (child : Felt)
  deriving DecidableEq, Repr

structure NodeWithHash where
  nodeHash : Felt
  node : MerkleNode
  deriving DecidableEq, Repr

/-- The last bits of the element, as many as the length says. -/
def feltToPath (felt : Felt) (length : Fin 256) : List Bool :=
  (digits 256 felt.val).drop (256-length.val)

/-- The path fills the end of 256 bits. -/
def pathToFelt (path : List Bool) : Felt :=
  Fin.ofNat feltPrime (value (List.replicate (256-path.length) false++path))

def MerkleNode.ofProofNode : ProofNode → MerkleNode
  | .binary left right => .binary left right
  | .edge child path => .edge (pathToFelt path) (Fin.ofNat 256 path.length) child

def ProofNode.ofMerkleNode : MerkleNode → ProofNode
  | .binary left right => .binary left right
  | .edge path length child => .edge child (feltToPath path length)

abbrev MultiProof := SortedMap Felt ProofNode

/-- The entries come in the order of a hash map. -/
def nodesOfMultiProof (entries : List (Felt × ProofNode)) : List NodeWithHash :=
  entries.map (fun r => ⟨r.1,.ofProofNode r.2⟩)

def multiProofOfNodes (nodes : List NodeWithHash) : MultiProof :=
  SortedMap.ofList (nodes.map fun n => (n.nodeHash,.ofMerkleNode n.node))

/-- The depth of the tries bounds the path of an edge. -/
def ProofNode.Bounded : ProofNode → Prop
  | .binary _ _ => True
  | .edge _ path => path.length≤251

theorem value_replicate (n : Nat) (bs : List Bool) :
    value (List.replicate n false++bs)=value bs := by
  induction n with
  | zero => rfl
  | succ n ih => exact ih

theorem feltToPath_pathToFelt {path : List Bool} (h : path.length≤251) :
    feltToPath (pathToFelt path) (Fin.ofNat 256 path.length)=path := by
  have hlt : value (List.replicate (256-path.length) false++path)<feltPrime := by
    rw [value_replicate]
    exact (value_lt path).trans_le ((Nat.pow_le_pow_right (by decide) h).trans (by decide))
  have hlen : (List.replicate (256-path.length) false++path).length=256 := by
    simp only [List.length_append,List.length_replicate]
    omega
  have hbits := digits_value (List.replicate (256-path.length) false++path)
  rw [hlen] at hbits
  rw [feltToPath,pathToFelt,Fin.val_ofNat,Fin.val_ofNat,Nat.mod_eq_of_lt hlt,
    Nat.mod_eq_of_lt (by omega),hbits]
  exact List.drop_left' (List.length_replicate)

theorem ofMerkleNode_ofProofNode {node : ProofNode} (h : node.Bounded) :
    ProofNode.ofMerkleNode (.ofProofNode node)=node := by
  cases node with
  | binary left right => rfl
  | edge child path => exact congrArg (ProofNode.edge child) (feltToPath_pathToFelt h)

/-- A multiproof is read back from its nodes, in whatever order they were listed. -/
theorem proof_conversion_lossless {proof : MultiProof} {entries : List (Felt × ProofNode)}
    (hp : entries.Perm proof.rows) (h : ∀ r∈proof.rows, r.2.Bounded) :
    multiProofOfNodes (nodesOfMultiProof entries)=proof := by
  have hback : (nodesOfMultiProof entries).map
      (fun n => (n.nodeHash,ProofNode.ofMerkleNode n.node))=entries := by
    rw [nodesOfMultiProof,List.map_map]
    refine (List.map_congr_left (fun r hr => ?_)).trans (List.map_id entries)
    exact Prod.ext rfl (ofMerkleNode_ofProofNode (h r (hp.mem_iff.mp hr)))
  rw [multiProofOfNodes,hback]
  refine SortedMap.ext_get (fun k => SortedMap.get_ofList_eq (fun v => ?_))
  rw [hp.mem_iff,SortedMap.get_eq_some]

/-- A path of 251 bits that starts with zeros, a short one and a binary node, listed in another
order than they are kept in. -/
theorem leading_zeros_kept :
    multiProofOfNodes (nodesOfMultiProof [(9,.binary 3 4),(7,.edge 1 [false,true]),
      (8,.edge 2 (List.replicate 250 false++[true]))])=
    SortedMap.put 9 (.binary 3 4) (SortedMap.put 8 (.edge 2 (List.replicate 250 false++[true]))
      (SortedMap.put 7 (.edge 1 [false,true]) ∅)) := by
  have hrows : (SortedMap.put 9 (.binary 3 4) (SortedMap.put 8
      (.edge 2 (List.replicate 250 false++[true]))
      (SortedMap.put 7 (.edge 1 [false,true]) ∅)) : MultiProof).rows=
        [(7,.edge 1 [false,true]),(8,.edge 2 (List.replicate 250 false++[true]))]++
          [(9,.binary 3 4)] := rfl
  refine proof_conversion_lossless (hrows ▸ (List.perm_append_comm : ([_]++_).Perm (_++[_]))) fun r hr => ?_
  rw [hrows] at hr
  simp only [List.cons_append,List.nil_append,List.mem_cons,List.not_mem_nil,or_false] at hr
  rcases hr with rfl | rfl | rfl
  · exact (by decide : 2≤251)
  · show (List.replicate 250 false++[true]).length≤251
    rw [List.length_append,List.length_replicate]
    decide
  · trivial

end Katana.Rpc
