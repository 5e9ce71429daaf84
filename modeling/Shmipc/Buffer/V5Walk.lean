import Shmipc.Buffer.V5Read

namespace Shmipc
namespace BufV5

open ByteMemory V5

/-!
# The blocks of a chain

`blocksFrom` follows the links and nothing else.  A chain is valid if it ends
within the limits of a reader and no block is on it twice, and then `walk_chain`
turns exactly its blocks into chunks, blocks without a byte included.
-/

/-- The blocks from an offset on, each with its payload. -/
def blocksFrom (mgr : RemoteManager) (mem : Memory) : Nat -> Int -> Option (List (Int × Slice))
  | 0, offset => if 0 < offset then none else some []
  | nodes + 1, offset =>
    if 0 < offset then
      match mgr.read mem offset with
      | none => none
      | some (slice, next) => (blocksFrom mgr mem nodes next).map ((offset, slice) :: ·)
    else some []

/-- The bytes that the blocks hold together. -/
def payload (mem : Memory) (blocks : List (Int × Slice)) : List UInt8 :=
  blocks.flatMap fun block => readBytes mem block.2.ptr block.2.len

/-- The bytes of a valid chain. -/
def chainBytes (mgr : RemoteManager) (mem : Memory) (root : Int) : Option (List UInt8) :=
  match blocksFrom mgr mem maxChainNodes root with
  | none => none
  | some blocks =>
    if (blocks.map Prod.fst).Nodup /\ (payload mem blocks).length <= maxDynShmTransferSize then
      some (payload mem blocks)
    else none

/-- The chunks that a reader makes of blocks. -/
def chunksOf (blocks : List (Int × Slice)) : List ReadChunk :=
  blocks.map fun block => ⟨.shm block.1 block.2 false, 0⟩

section Blocks

variable {mgr : RemoteManager} {mem : Memory} {nodes : Nat} {offset : Int}
  {blocks : List (Int × Slice)}

theorem payload_cons (mem : Memory) (block : Int × Slice) (rest : List (Int × Slice)) :
    payload mem (block :: rest) =
      readBytes mem block.2.ptr block.2.len ++ payload mem rest :=
  List.flatMap_cons

theorem blocksFrom_nil (followed : blocksFrom mgr mem nodes offset = some []) : ¬ 0 < offset := by
  intro positive
  cases nodes with
  | zero =>
    rw [blocksFrom, if_pos positive] at followed
    cases followed
  | succ nodes =>
    rw [blocksFrom, if_pos positive] at followed
    split at followed
    · cases followed
    · rcases Option.map_eq_some_iff.mp followed with ⟨rest, _, wrong⟩
      cases wrong

theorem blocksFrom_cons {block : Int × Slice} {rest : List (Int × Slice)}
    (followed : blocksFrom mgr mem nodes offset = some (block :: rest)) :
    0 < offset /\ block.1 = offset /\ Exists fun fewer => Exists fun next =>
      nodes = fewer + 1 /\ mgr.read mem offset = some (block.2, next) /\
        blocksFrom mgr mem fewer next = some rest := by
  cases nodes with
  | zero =>
    rw [blocksFrom] at followed
    split at followed <;> cases followed
  | succ nodes =>
    rw [blocksFrom] at followed
    split at followed
    case isFalse => cases followed
    case isTrue positive =>
      split at followed
      · cases followed
      · next slice next read =>
        rcases Option.map_eq_some_iff.mp followed with ⟨others, further, same⟩
        cases same
        exact ⟨positive, rfl, nodes, next, rfl, read, further⟩

end Blocks

namespace V5ReadBuffer

/-- Chunks behind those that are there. -/
def append (b : V5ReadBuffer) (chunks : List ReadChunk) (len : Nat) : V5ReadBuffer :=
  { b with ready := b.ready ++ chunks, len := b.len + len }

variable {mgr : RemoteManager} {mem : Memory} {root : Int}

theorem append_nil (b : V5ReadBuffer) : b.append [] 0 = b := by
  simp only [append, List.append_nil, Nat.add_zero]

theorem pushBack_append (b : V5ReadBuffer) (offset : Int) (slice : Slice)
    (rest : List (Int × Slice)) (len : Nat) :
    (b.pushBack (.shm offset slice false) slice.len).append (chunksOf rest) len =
      b.append (chunksOf ((offset, slice) :: rest)) (slice.len + len) := by
  simp only [pushBack, append, chunksOf, List.map_cons, List.append_assoc, List.singleton_append,
    Nat.add_assoc]

theorem readable_append (b : V5ReadBuffer) (blocks : List (Int × Slice)) (len : Nat)
    (mem : Memory) :
    (b.append (chunksOf blocks) len).readable mem = b.readable mem ++ payload mem blocks := by
  simp only [readable, append, chunksOf, List.flatMap_append, List.flatMap_map, payload,
    ReadChunk.bytes, List.drop_zero]

/-- The walk turns the blocks that are ahead into chunks.  At the first block,
where the limit is still whole, nothing counts as seen. -/
theorem walkFrom_blocks {nodes chainTotal : Nat} {visited : Option (List Int)} {offset : Int}
    {blocks : List (Int × Slice)} (b : V5ReadBuffer) (bounded : nodes <= maxChainNodes)
    (followed : blocksFrom mgr mem nodes offset = some blocks)
    (distinct : (blocks.map Prod.fst).Nodup)
    (limit : chainTotal + (payload mem blocks).length <= maxDynShmTransferSize)
    (start : nodes = maxChainNodes -> visited = none /\ offset = root)
    (unseen : nodes < maxChainNodes -> ∀ block ∈ blocks, block.1 ∉ visited.getD [root]) :
    (walkFrom mgr mem root nodes visited chainTotal offset b).1 =
      (.ok (chainTotal + (payload mem blocks).length),
        b.append (chunksOf blocks) (payload mem blocks).length) := by
  induction blocks generalizing nodes visited chainTotal offset b with
  | nil =>
    have ended := blocksFrom_nil followed
    have nothing : b.append (chunksOf []) (payload mem []).length = b := b.append_nil
    rw [nothing]
    cases nodes with
    | zero => exact if_neg ended
    | succ nodes => rw [walkFrom, if_neg ended, payload, List.flatMap_nil]; rfl
  | cons block rest ih =>
    rcases blocksFrom_cons followed with ⟨positive, here, fewer, next, rfl, read, further⟩
    rcases block with ⟨first, slice⟩
    dsimp only at here read
    subst here
    have bytes : (payload mem ((first, slice) :: rest)).length =
        slice.len + (payload mem rest).length := by
      rw [payload_cons, List.length_append, length_readBytes]
    rcases List.nodup_cons.mp distinct with ⟨fresh, distinct'⟩
    have unvisited : ¬ (fewer + 1 < maxChainNodes /\ first ∈ visited.getD [root]) :=
      fun seen => unseen seen.1 _ List.mem_cons_self seen.2
    have unseen' : ∀ block ∈ rest, block.1 ∉
        (if fewer + 1 < maxChainNodes then some (first :: visited.getD [root])
          else visited).getD [root] := by
      intro block later
      have apart : block.1 ≠ first := fun same =>
        fresh (List.mem_map.mpr ⟨block, later, same⟩)
      split
      case isTrue more =>
        rw [Option.getD_some, List.mem_cons, not_or]
        exact ⟨apart, unseen more block (List.mem_cons_of_mem _ later)⟩
      case isFalse whole =>
        rcases start (by omega) with ⟨none, rfl⟩
        rw [none, Option.getD_none, List.mem_singleton]
        exact apart
    rw [bytes] at limit ⊢
    rw [walkFrom, if_pos positive]
    dsimp only
    rw [if_neg unvisited, read]
    dsimp only
    rw [if_neg (by omega), ih _ (by omega) further distinct' (by omega) (by omega)
      (fun _ => unseen'), pushBack_append, Nat.add_assoc]

theorem walkChain_blocks {blocks : List (Int × Slice)} (b : V5ReadBuffer)
    (followed : blocksFrom mgr mem maxChainNodes root = some blocks)
    (distinct : (blocks.map Prod.fst).Nodup)
    (limit : (payload mem blocks).length <= maxDynShmTransferSize) :
    b.walkChain mgr mem root =
      (.ok (payload mem blocks).length,
        b.append (chunksOf blocks) (payload mem blocks).length) := by
  rw [walkChain, walkChainTraced, walkFrom_blocks b (Nat.le_refl _) followed distinct (by omega)
    (fun _ => ⟨rfl, rfl⟩) (fun wrong => absurd wrong (Nat.lt_irrefl _)), Nat.zero_add]

theorem walkChain_of_chainBytes {bytes : List UInt8} (b : V5ReadBuffer)
    (valid : chainBytes mgr mem root = some bytes) :
    Exists fun blocks => payload mem blocks = bytes /\
      b.walkChain mgr mem root =
        (.ok bytes.length, b.append (chunksOf blocks) bytes.length) := by
  unfold chainBytes at valid
  split at valid
  · cases valid
  · next blocks followed =>
    rw [Option.ite_none_right_eq_some, Option.some.injEq] at valid
    rcases valid with ⟨⟨distinct, limit⟩, rfl⟩
    exact ⟨blocks, rfl, walkChain_blocks b followed distinct limit⟩

end V5ReadBuffer

end BufV5
end Shmipc
