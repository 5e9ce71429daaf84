import Shmipc.Session.Events

namespace Shmipc
namespace Session

open ByteStream

/-!
# The paths of the shared memory

The client of protocols two to four names its queue and its buffers in the body of one
event: two paths, each behind a length of two bytes.  The server reads as many bytes as
the header announces and takes the paths out of them.  Neither length is checked on either
side.  A path is given by its bytes, which nobody decodes.
-/

/-- What a handler comes to.  A subtraction below zero and an index outside of a slice
panic. -/
inductive ShmResult (α : Type) where
  | ok (value : α)
  | error
  | panic
  deriving DecidableEq

/-- A length and as many bytes, and where the next field starts.  Fails where the indexing
panics. -/
def shmField (body : List UInt8) (offset : Nat) : Option (List UInt8 × Nat) :=
  if body.length < offset + 2 then none
  else
    let pathLen := fromBeBytes ((body.drop offset).take 2)
    let offset := offset + 2
    if body.length < offset + pathLen then none
    else some ((body.drop offset).take pathLen, offset + pathLen)

/-- The buffer path and the queue path of a body. -/
def extractShmMetadata (body : List UInt8) : Option (List UInt8 × List UInt8) := do
  let (queuePath, offset) <- shmField body 0
  let (bufferPath, _) <- shmField body offset
  return (bufferPath, queuePath)

/-- Lengths are cut to the two bytes that there are for them. -/
def generateShmMetadata (eventType : EventType) (bufferPath queuePath : List UInt8)
    (version : Nat) : List UInt8 :=
  Header.encode (headerSize + 2 + bufferPath.length + 2 + queuePath.length) version eventType ++
    (toBeBytes 2 queuePath.length ++ queuePath ++ (toBeBytes 2 bufferPath.length ++ bufferPath))

/-- Read the body that the header announces from what the peer sends before it closes. -/
def readShmBody (hdr : Header) (socket : List UInt8) : ShmResult (List UInt8) :=
  if hdr.length < headerSize then .panic
  else if socket.length < hdr.length - headerSize then .error
  else .ok (socket.take (hdr.length - headerSize))

/-- The paths that `handle_share_memory_by_file_path` maps. -/
def handleShareMemoryByFilePath (hdr : Header) (socket : List UInt8) :
    ShmResult (List UInt8 × List UInt8) :=
  match readShmBody hdr socket with
  | .panic => .panic
  | .error => .error
  | .ok body =>
    match extractShmMetadata body with
    | none => .panic
    | some paths => .ok paths

/-- The paths and descriptors that `handle_share_memory_by_memfd_with_expected` maps.  The
peer answers the acknowledgement with descriptors, or nothing usable comes. -/
def handleShareMemoryByMemfdWithExpected (hdr : Header) (socket : List UInt8)
    (expectedFdCount : Nat) (answer : Option (List Int)) :
    ShmResult ((List UInt8 × List UInt8) × Int × Int) :=
  match readShmBody hdr socket with
  | .panic => .panic
  | .error => .error
  | .ok body =>
    match extractShmMetadata body with
    | none => .panic
    | some paths =>
      match answer with
      | none => .error
      | some fds =>
        if fds.length < expectedFdCount then .error
        else
          match fds with
          | bufferFd :: queueFd :: _ => .ok (paths, bufferFd, queueFd)
          | _ => .panic

/-! ## Bodies that hold two paths -/

/-- A body holds the queue path and the buffer path, each behind its length. -/
def Framed (body bufferPath queuePath : List UInt8) : Prop :=
  Exists fun queueLen => Exists fun bufferLen => Exists fun rest =>
    body = queueLen ++ queuePath ++ (bufferLen ++ bufferPath ++ rest) /\
    (queueLen.length = 2 /\ queuePath.length = fromBeBytes queueLen) /\
    (bufferLen.length = 2 /\ bufferPath.length = fromBeBytes bufferLen)

/-- The announced body ends before it is complete, or it holds two paths. -/
def Decodable (hdr : Header) (socket : List UInt8) : Prop :=
  headerSize <= hdr.length /\
    (hdr.length - headerSize <= socket.length ->
      Exists fun bufferPath => Exists fun queuePath =>
        Framed (socket.take (hdr.length - headerSize)) bufferPath queuePath)

theorem shmField_eq_some {before after path : List UInt8} {next : Nat} :
    shmField (before ++ after) before.length = some (path, next) <->
      Exists fun len => Exists fun rest => after = len ++ path ++ rest /\
        (len.length = 2 /\ path.length = fromBeBytes len) /\
        next = (before ++ (len ++ path)).length := by
  unfold shmField
  dsimp only
  rw [<- List.drop_drop, List.drop_left, List.length_append]
  constructor
  · intro read
    split at read
    · cases read
    · next two =>
      split at read
      · cases read
      · next whole =>
        generalize len : fromBeBytes (after.take 2) = count at read whole
        cases read
        have short : (after.take 2).length = 2 := by
          rw [List.length_take]
          omega
        have path : ((after.drop 2).take count).length = count := by
          rw [List.length_take, List.length_drop]
          omega
        refine ⟨after.take 2, (after.drop 2).drop count, ?_, ⟨short, path.trans len.symm⟩, ?_⟩
        · rw [List.append_assoc, List.take_append_drop, List.take_append_drop]
        · rw [List.length_append, List.length_append, short, path]
          omega
  · rintro ⟨len, rest, rfl, ⟨two, size⟩, rfl⟩
    rw [List.append_assoc, List.take_left' two, List.drop_left' two, <- size, List.take_left]
    simp only [List.length_append, two]
    rw [if_neg (by omega), if_neg (by omega), Nat.add_assoc]

variable {body : List UInt8} {queuePath : String} {dynshmSize : Nat}

theorem extractShmMetadata_eq_some {bufferPath queuePath : List UInt8} :
    extractShmMetadata body = some (bufferPath, queuePath) <->
      Framed body bufferPath queuePath := by
  have first {path : List UInt8} {next : Nat} :=
    @shmField_eq_some [] body path next
  unfold extractShmMetadata
  constructor
  · intro read
    rcases Option.bind_eq_some_iff.mp read with ⟨⟨queue, offset⟩, one, read⟩
    rcases Option.bind_eq_some_iff.mp read with ⟨⟨buffer, next⟩, two, same⟩
    cases same
    rcases first.mp one with ⟨queueLen, after, rfl, queueFits, rfl⟩
    rcases shmField_eq_some.mp two with ⟨bufferLen, rest, rfl, bufferFits, _⟩
    exact ⟨queueLen, bufferLen, rest, rfl, queueFits, bufferFits⟩
  · rintro ⟨queueLen, bufferLen, rest, rfl, queueFits, bufferFits⟩
    have one := first.mpr ⟨queueLen, _, rfl, queueFits, rfl⟩
    have two := (@shmField_eq_some (queueLen ++ queuePath) _ bufferPath _).mpr
      ⟨bufferLen, rest, rfl, bufferFits, rfl⟩
    exact Option.bind_eq_some_iff.mpr ⟨_, one, Option.bind_eq_some_iff.mpr ⟨_, two, rfl⟩⟩

theorem Framed.contains {bufferPath queuePath : List UInt8}
    (framed : Framed body bufferPath queuePath) :
    bufferPath <:+: body /\ queuePath <:+: body := by
  rcases framed with ⟨queueLen, bufferLen, rest, rfl, _⟩
  constructor
  · exact ⟨queueLen ++ queuePath ++ bufferLen, rest, by simp only [List.append_assoc]⟩
  · exact ⟨queueLen, _, rfl⟩

theorem drop_generateShmMetadata (eventType : EventType) (bufferPath queuePath : List UInt8)
    (version : Nat) :
    (generateShmMetadata eventType bufferPath queuePath version).drop headerSize =
      toBeBytes 2 queuePath.length ++ queuePath ++
        (toBeBytes 2 bufferPath.length ++ bufferPath) := by
  unfold generateShmMetadata
  apply List.drop_left'
  simp only [Header.encode, List.length_append, length_toBeBytes, headerSize]

/-- A length that two bytes hold is read back as it was written, and no other. -/
theorem length_eq_fromBeBytes_iff (path : List UInt8) :
    path.length = fromBeBytes (toBeBytes 2 path.length) <-> path.length < 2 ^ 16 := by
  rw [fromBeBytes_toBeBytes_mod]
  omega

theorem framed_generateShmMetadata_iff (eventType : EventType) (bufferPath queuePath : List UInt8)
    (version : Nat) :
    Framed ((generateShmMetadata eventType bufferPath queuePath version).drop headerSize)
        bufferPath queuePath <->
      bufferPath.length < 2 ^ 16 /\ queuePath.length < 2 ^ 16 := by
  rw [drop_generateShmMetadata, <- length_eq_fromBeBytes_iff bufferPath,
    <- length_eq_fromBeBytes_iff queuePath]
  constructor
  · rintro ⟨queueLen, bufferLen, rest, same, ⟨two, queueFits⟩, two', bufferFits⟩
    rw [List.append_assoc, List.append_assoc] at same
    rcases List.append_inj same (by rw [two, length_toBeBytes]) with ⟨rfl, paths⟩
    have buffer := List.append_cancel_left paths
    rw [List.append_assoc] at buffer
    rcases List.append_inj buffer (by rw [two', length_toBeBytes]) with ⟨rfl, _⟩
    exact ⟨bufferFits, queueFits⟩
  · rintro ⟨bufferFits, queueFits⟩
    refine ⟨_, _, [], ?_, ⟨length_toBeBytes .., queueFits⟩, length_toBeBytes .., bufferFits⟩
    rw [List.append_nil]

/-! ## The handlers -/

/-- A handler has refused the event, or it has two paths that lie in the body. -/
def ShmResult.Safe {α : Type} (result : ShmResult α) (paths : α -> List UInt8 × List UInt8)
    (body : List UInt8) : Prop :=
  match result with
  | .ok value => (paths value).1 <:+: body /\ (paths value).2 <:+: body
  | .error => True
  | .panic => False

theorem handleShareMemoryByFilePath_safe_iff (hdr : Header) (socket : List UInt8) :
    (handleShareMemoryByFilePath hdr socket).Safe id (socket.take (hdr.length - headerSize)) <->
      Decodable hdr socket := by
  unfold handleShareMemoryByFilePath readShmBody Decodable
  by_cases short : hdr.length < headerSize
  · rw [if_pos short]
    exact ⟨False.elim, fun decodable => absurd decodable.1 (Nat.not_le.mpr short)⟩
  · rw [if_neg short]
    by_cases cut : socket.length < hdr.length - headerSize
    · rw [if_pos cut]
      exact ⟨fun _ => ⟨Nat.not_lt.mp short, fun whole => absurd whole (Nat.not_le.mpr cut)⟩,
        fun _ => trivial⟩
    · rw [if_neg cut]
      dsimp only
      cases found : extractShmMetadata (socket.take (hdr.length - headerSize)) with
      | none =>
        refine ⟨False.elim, fun decodable => ?_⟩
        rcases decodable.2 (Nat.not_lt.mp cut) with ⟨bufferPath, queuePath, framed⟩
        rw [extractShmMetadata_eq_some.mpr framed] at found
        cases found
      | some paths =>
        have framed := extractShmMetadata_eq_some.mp found
        exact ⟨fun _ => ⟨Nat.not_lt.mp short, fun _ => ⟨_, _, framed⟩⟩, fun _ => framed.contains⟩

theorem handleShareMemoryByMemfdWithExpected_safe_iff (hdr : Header) (socket : List UInt8)
    {expectedFdCount : Nat} (two : 2 <= expectedFdCount) (answer : Option (List Int)) :
    (handleShareMemoryByMemfdWithExpected hdr socket expectedFdCount answer).Safe Prod.fst
        (socket.take (hdr.length - headerSize)) <->
      Decodable hdr socket := by
  rw [<- handleShareMemoryByFilePath_safe_iff]
  unfold handleShareMemoryByMemfdWithExpected handleShareMemoryByFilePath
  cases read : readShmBody hdr socket with
  | error => exact Iff.rfl
  | panic => exact Iff.rfl
  | ok body =>
    dsimp only
    cases found : extractShmMetadata body with
    | none => exact Iff.rfl
    | some paths =>
      have same : body = socket.take (hdr.length - headerSize) := by
        unfold readShmBody at read
        split_ifs at read
        cases read
        rfl
      have contained := (extractShmMetadata_eq_some.mp found).contains
      rw [same] at contained
      dsimp only
      split
      · exact ⟨fun _ => contained, fun _ => trivial⟩
      · next fds =>
        -- a list that is long enough has two descriptors
        match fds with
        | [] =>
          rw [if_pos (by rw [List.length_nil]; omega)]
          exact ⟨fun _ => contained, fun _ => trivial⟩
        | [_] =>
          rw [if_pos (by rw [List.length_singleton]; omega)]
          exact ⟨fun _ => contained, fun _ => trivial⟩
        | _ :: _ :: _ =>
          split
          · exact ⟨fun _ => contained, fun _ => trivial⟩
          · exact Iff.rfl

/-- Exactly the paths of less than `2 ^ 16` bytes come back as they were sent, and the
handlers are safe exactly against bodies that hold two paths or stay away. -/
theorem shm_metadata_decodes_iff (eventType : EventType) (bufferPath queuePath : List UInt8)
    (version : Nat) (hdr : Header) (socket : List UInt8) {expectedFdCount : Nat}
    (two : 2 <= expectedFdCount) (answer : Option (List Int)) :
    (extractShmMetadata
        ((generateShmMetadata eventType bufferPath queuePath version).drop headerSize) =
        some (bufferPath, queuePath) <->
      bufferPath.length < 2 ^ 16 /\ queuePath.length < 2 ^ 16) /\
    ((handleShareMemoryByFilePath hdr socket).Safe id
        (socket.take (hdr.length - headerSize)) <-> Decodable hdr socket) /\
    ((handleShareMemoryByMemfdWithExpected hdr socket expectedFdCount answer).Safe Prod.fst
        (socket.take (hdr.length - headerSize)) <-> Decodable hdr socket) := by
  refine ⟨?_, handleShareMemoryByFilePath_safe_iff hdr socket,
    handleShareMemoryByMemfdWithExpected_safe_iff hdr socket two answer⟩
  rw [extractShmMetadata_eq_some]
  exact framed_generateShmMetadata_iff ..

/-- Two short paths, with the descriptors of a memfd. -/
theorem shm_metadata_decodes_iff_short :
    extractShmMetadata
        ((generateShmMetadata .shareMemoryByMemfd [97, 98] [99] 3).drop headerSize) =
        some ([97, 98], [99]) /\
      (handleShareMemoryByMemfdWithExpected ⟨15, magicNumber, 3, .shareMemoryByMemfd⟩
        [0, 1, 99, 0, 2, 97, 98] 2 (some [4, 5])).Safe Prod.fst [0, 1, 99, 0, 2, 97, 98] := by
  rcases shm_metadata_decodes_iff .shareMemoryByMemfd [97, 98] [99] 3
      ⟨15, magicNumber, 3, .shareMemoryByMemfd⟩ [0, 1, 99, 0, 2, 97, 98] (Nat.le_refl 2)
      (some [4, 5]) with ⟨path, _, handler⟩
  exact ⟨path.mpr (by decide),
    handler.mpr ⟨by decide, fun _ => ⟨[97, 98], [99], [0, 1], [0, 2], [], by decide⟩⟩⟩

/-- A path of 65536 bytes comes back empty, a header that announces less than itself and a
body that ends in a length panic. -/
theorem shm_metadata_is_not_checked :
    extractShmMetadata ((generateShmMetadata .shareMemoryByFilePath []
        (List.replicate (2 ^ 16) 97) 2).drop headerSize) ≠ some ([], List.replicate (2 ^ 16) 97) /\
      handleShareMemoryByFilePath ⟨7, magicNumber, 2, .shareMemoryByFilePath⟩ [] = .panic /\
      handleShareMemoryByFilePath ⟨9, magicNumber, 2, .shareMemoryByFilePath⟩ [0] = .panic /\
      handleShareMemoryByMemfdWithExpected ⟨11, magicNumber, 3, .shareMemoryByMemfd⟩ [0, 9, 97] 2
        (some [4, 5]) = .panic := by
  refine ⟨fun same => ?_, by decide, by decide, by decide⟩
  have short := (framed_generateShmMetadata_iff ..).mp (extractShmMetadata_eq_some.mp same)
  rw [List.length_replicate] at short
  exact absurd short.2 (Nat.lt_irrefl _)

/-! ## The metadata of protocol five

Each end names its queue only, behind a length that is checked on both sides, and leaves the
size of its segment to the descriptor.  The path has to be text. -/

inductive V5MetadataError where
  | pathTooLong (length : Nat)
  | emptyPath
  | tooShort (length : Nat)
  | wrongLength (pathLen length : Nat)
  | notUtf8
  deriving DecidableEq

def advertisedDynshmSize : Nat := 0

def metadataMinSize : Nat := 2 + 4

def bytesOf (path : String) : List UInt8 :=
  path.toByteArray.data.toList

def generateV5ShmMetadata (queuePath : String) (version : Nat) :
    Except V5MetadataError (List UInt8) :=
  let path := bytesOf queuePath
  if 2 ^ 16 <= path.length then .error (.pathTooLong path.length)
  else if path.length = 0 then .error .emptyPath
  else
    .ok (Header.encode (headerSize + 2 + path.length + 4) version .shareMemoryByMemfd ++
      (toBeBytes 2 path.length ++ path ++ toBeBytes 4 advertisedDynshmSize))

def extractV5ShmMetadata (body : List UInt8) : Except V5MetadataError (String × Nat) :=
  if body.length < metadataMinSize then .error (.tooShort body.length)
  else
    let pathLen := fromBeBytes (body.take 2)
    let pathEnd := 2 + pathLen
    if pathLen = 0 \/ body.length ≠ pathEnd + 4 then .error (.wrongLength pathLen body.length)
    else
      match String.fromUTF8? ⟨((body.take pathEnd).drop 2).toArray⟩ with
      | none => .error .notUtf8
      | some queuePath => .ok (queuePath, fromBeBytes (body.drop pathEnd))

/-- A body holds a path behind its length, and a size. -/
def V5Framed (body : List UInt8) (queuePath : String) (dynshmSize : Nat) : Prop :=
  Exists fun len => Exists fun size => body = len ++ bytesOf queuePath ++ size /\
    (len.length = 2 /\ fromBeBytes len = (bytesOf queuePath).length) /\
    (size.length = 4 /\ fromBeBytes size = dynshmSize) /\ queuePath ≠ ""

theorem fromUTF8?_eq_some {bytes : List UInt8} {path : String} :
    String.fromUTF8? ⟨bytes.toArray⟩ = some path <-> bytes = bytesOf path := by
  unfold String.fromUTF8?
  constructor
  · intro decoded
    split at decoded
    · cases decoded
      rfl
    · cases decoded
  · rintro rfl
    have valid : ByteArray.IsValidUTF8 ⟨(bytesOf path).toArray⟩ := path.isValidUTF8
    rw [dif_pos valid]
    rfl

theorem length_bytesOf_eq_zero {path : String} : (bytesOf path).length = 0 <-> path = "" := by
  constructor
  · intro empty
    apply String.toByteArray_inj.mp
    apply ByteArray.ext
    exact Array.toList_inj.mp (List.length_eq_zero_iff.mp empty)
  · rintro rfl
    rfl

theorem V5Framed.extract (framed : V5Framed body queuePath dynshmSize) :
    extractV5ShmMetadata body = .ok (queuePath, dynshmSize) := by
  rcases framed with ⟨len, size, rfl, ⟨two, count⟩, ⟨four, rfl⟩, path⟩
  have positive := mt length_bytesOf_eq_zero.mp path
  have front : (len ++ bytesOf queuePath).length = 2 + (bytesOf queuePath).length := by
    rw [List.length_append, two]
  unfold extractV5ShmMetadata metadataMinSize
  dsimp only
  rw [List.append_assoc, List.take_left' two, <- List.append_assoc, count, if_neg, if_neg,
    List.take_left' front, List.drop_left' front, List.drop_left' two,
    fromUTF8?_eq_some.mpr rfl]
  · rw [List.length_append, front, four]
    omega
  · rw [List.length_append, front, four]
    omega

theorem V5Framed.of_extract (read : extractV5ShmMetadata body = .ok (queuePath, dynshmSize)) :
    V5Framed body queuePath dynshmSize := by
  unfold extractV5ShmMetadata at read
  dsimp only at read
  split_ifs at read with short bad
  rcases not_or.mp bad with ⟨positive, whole⟩
  split at read
  · cases read
  · next decoded =>
    cases read
    have path := fromUTF8?_eq_some.mp decoded
    generalize count : fromBeBytes (body.take 2) = pathLen at *
    have long : (bytesOf queuePath).length = pathLen := by
      rw [<- path, List.length_drop, List.length_take]
      omega
    refine ⟨body.take 2, body.drop (2 + pathLen), ?_, ⟨?_, count.trans long.symm⟩, ⟨?_, rfl⟩, ?_⟩
    · have front : body.take 2 = (body.take (2 + pathLen)).take 2 := by
        rw [List.take_take, Nat.min_eq_left (Nat.le_add_right _ _)]
      rw [<- path, front, List.take_append_drop, List.take_append_drop]
    · rw [List.length_take]
      omega
    · rw [List.length_drop]
      omega
    · exact fun empty => positive (long ▸ length_bytesOf_eq_zero.mpr empty)

theorem V5Framed.short (framed : V5Framed body queuePath dynshmSize) :
    (bytesOf queuePath).length < 2 ^ 16 := by
  rcases framed with ⟨len, _, _, ⟨two, count⟩, _⟩
  rcases List.length_eq_two.mp two with ⟨high, low, rfl⟩
  have := high.toNat_lt
  have := low.toNat_lt
  simp only [fromBeBytes, List.foldl_cons, List.foldl_nil] at count
  omega

/-- An end accepts exactly the bodies that hold a path and a size.  What an end sends is
accepted and read back, and the paths that it refuses to send are in no body that is
accepted. -/
theorem v5_metadata_read_back (queuePath : String) (version : Nat) :
    (forall body dynshmSize, extractV5ShmMetadata body = .ok (queuePath, dynshmSize) <->
      V5Framed body queuePath dynshmSize) /\
    match generateV5ShmMetadata queuePath version with
    | .ok event =>
      extractV5ShmMetadata (event.drop headerSize) = .ok (queuePath, advertisedDynshmSize)
    | .error _ => forall body dynshmSize,
      extractV5ShmMetadata body ≠ .ok (queuePath, dynshmSize) := by
  refine ⟨fun body size => ⟨V5Framed.of_extract, V5Framed.extract⟩, ?_⟩
  unfold generateV5ShmMetadata
  dsimp only
  by_cases long : 2 ^ 16 <= (bytesOf queuePath).length
  · rw [if_pos long]
    exact fun body size read => absurd long (Nat.not_le.mpr (V5Framed.of_extract read).short)
  · rw [if_neg long]
    by_cases empty : (bytesOf queuePath).length = 0
    · rw [if_pos empty]
      intro body size read
      rcases V5Framed.of_extract read with ⟨_, _, _, _, _, path⟩
      exact path (length_bytesOf_eq_zero.mp empty)
    · rw [if_neg empty]
      exact V5Framed.extract ⟨_, _, List.drop_left' (Header.length_encode ..),
        ⟨length_toBeBytes 2 _, fromBeBytes_toBeBytes (Nat.lt_of_not_le long)⟩,
        ⟨length_toBeBytes 4 _, rfl⟩, mt length_bytesOf_eq_zero.mpr empty⟩

end Session
end Shmipc
