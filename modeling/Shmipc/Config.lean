import Shmipc.Pool.Manager

namespace Shmipc

open Pool (SizePercentPair)
open Buffer (bufferHeaderSize)

/-!
# The configuration of a session

Both sides check their configuration before a session starts.  The check rounds
the buffer sizes up to a multiple of four and the capacity of the queue up to a
multiple of eight, so a configuration that passes is not the one that was given.
Two sizes may become equal that way, and nothing asks for different sizes in the
first place.
-/

inductive MemMapType
  | memMapTypeDevShmFile
  | memMapTypeMemFd
  deriving DecidableEq

inductive ProtocolMode
  | legacy
  | v4 (fallback : Bool)
  | v5 (fallback : Bool)
  deriving DecidableEq

def ProtocolMode.isV5 : ProtocolMode -> Bool
  | .v5 _ => true
  | _ => false

/-- The interval is in nanoseconds. -/
inductive WakeupMode
  | default
  | eventQueuePolling (interval : Nat)
  | eventFd
  deriving DecidableEq

structure ProtocolConfig where
  mode : ProtocolMode
  wakeup : WakeupMode
  deriving DecidableEq

/-- The fields that the check reads. -/
structure Config where
  queueCap : Nat
  queuePath : String
  shareMemoryBufferCap : Nat
  shareMemoryPathPrefix : String
  bufferSliceSizes : List SizePercentPair
  memMapType : MemMapType
  protocol : ProtocolConfig
  deriving DecidableEq

def defaultQueueCap : Nat := 8192

def defaultQueuePath : String := "/dev/shm/shmipc_queue"

def defaultShareMemoryCap : Nat := 32 * 1024 * 1024

def defaultBufferSliceSizes : List SizePercentPair :=
  [⟨8192 - bufferHeaderSize, 50⟩, ⟨32 * 1024 - bufferHeaderSize, 30⟩,
    ⟨128 * 1024 - bufferHeaderSize, 20⟩]

def Config.default : Config where
  queueCap := defaultQueueCap
  queuePath := defaultQueuePath
  shareMemoryBufferCap := defaultShareMemoryCap
  shareMemoryPathPrefix := "/dev/shm/shmipc"
  bufferSliceSizes := defaultBufferSliceSizes
  memMapType := .memMapTypeMemFd
  protocol := ⟨.legacy, .default⟩

inductive ConfigError
  | wakeupNeedsNegotiation (wakeup : WakeupMode)
  | zeroPollingInterval
  | eventFdNeedsMemFd
  | v5NeedsMemFd
  | shareMemoryTooSmall (cap atLeast : Nat)
  | noBufferSliceSizes
  | sliceTooLarge (size shareMemoryBufferCap : Nat)
  | percentNot100
  | emptyPath
  deriving DecidableEq

/-- `(value + (1 << bits) - 1) & !((1 << bits) - 1)` on `u32`. -/
def alignUp (bits value : Nat) : Nat :=
  (value + (2 ^ bits - 1)) % 2 ^ 32 / 2 ^ bits * 2 ^ bits

namespace SizePercentPair

def aligned (pair : SizePercentPair) : SizePercentPair :=
  { pair with size := alignUp 2 pair.size }

end SizePercentPair

namespace Config

/-- The loop over the sizes: the aligned sizes and the sum of the percents. -/
def verifySizes (shareMemoryBufferCap : Nat) :
    List SizePercentPair -> Nat -> Except ConfigError (List SizePercentPair × Nat)
  | [], sum => .ok ([], sum)
  | pair :: rest, sum =>
    let sum := (sum + pair.percent) % 2 ^ 32
    if shareMemoryBufferCap < pair.size then
      .error (.sliceTooLarge pair.size shareMemoryBufferCap)
    else
      match verifySizes shareMemoryBufferCap rest sum with
      | .error err => .error err
      | .ok (sizes, sum) => .ok (SizePercentPair.aligned pair :: sizes, sum)

def verify (config : Config) : Except ConfigError Config :=
  if config.protocol.mode = .legacy /\ config.protocol.wakeup ≠ .default then
    .error (.wakeupNeedsNegotiation config.protocol.wakeup)
  else if config.protocol.wakeup = .eventQueuePolling 0 then
    .error .zeroPollingInterval
  else if config.protocol.wakeup = .eventFd /\ config.memMapType ≠ .memMapTypeMemFd then
    .error .eventFdNeedsMemFd
  else if config.protocol.mode.isV5 /\ config.memMapType ≠ .memMapTypeMemFd then
    .error .v5NeedsMemFd
  else if config.shareMemoryBufferCap < 2 ^ 20 then
    .error (.shareMemoryTooSmall config.shareMemoryBufferCap (2 ^ 20))
  else if config.bufferSliceSizes = [] then .error .noBufferSliceSizes
  else
    match verifySizes config.shareMemoryBufferCap config.bufferSliceSizes 0 with
    | .error err => .error err
    | .ok (sizes, sum) =>
      if sum ≠ 100 then .error .percentNot100
      else if config.shareMemoryPathPrefix = "" \/ config.queuePath = "" then .error .emptyPath
      else
        .ok { config with
              bufferSliceSizes := sizes, queueCap := alignUp 3 config.queueCap }

example : Config.default.verify = .ok Config.default := by
  decide +kernel

theorem verify_two_sizes :
    { Config.default with
      shareMemoryBufferCap := 2 ^ 20
      bufferSliceSizes := [⟨262097, 50⟩, ⟨524225, 50⟩] }.verify =
        .ok { Config.default with
          shareMemoryBufferCap := 2 ^ 20
          bufferSliceSizes := [⟨262100, 50⟩, ⟨524228, 50⟩] } := by
  decide +kernel

/-- A size that passes is at most as large as the share memory before it is
rounded up. -/
theorem verifySizes_bound {cap : Nat} {pairs sizes : List SizePercentPair} {sum total : Nat}
    (passed : verifySizes cap pairs sum = .ok (sizes, total)) :
    ∀ pair ∈ sizes, pair.size <= cap + 3 /\ pair.size < 2 ^ 32 := by
  induction pairs generalizing sum sizes with
  | nil =>
    cases passed
    exact fun _ none => absurd none List.not_mem_nil
  | cons first rest ih =>
    simp only [verifySizes] at passed
    split_ifs at passed with large
    split at passed
    · cases passed
    · next others total' result =>
      cases passed
      intro pair member
      rcases List.mem_cons.mp member with rfl | later
      · simp only [SizePercentPair.aligned, alignUp]
        omega
      · exact ih result pair later

theorem verify_sizes {config accepted : Config} (verified : config.verify = .ok accepted) :
    ∀ pair ∈ accepted.bufferSliceSizes,
      pair.size <= accepted.shareMemoryBufferCap + 3 /\ pair.size < 2 ^ 32 := by
  simp only [verify] at verified
  cases result : verifySizes config.shareMemoryBufferCap config.bufferSliceSizes 0 with
  | error err =>
    rw [result] at verified
    split_ifs at verified
  | ok sized =>
    rcases sized with ⟨sizes, total⟩
    simp only [result] at verified
    split_ifs at verified
    cases verified
    exact verifySizes_bound result

end Config

end Shmipc
