import Shmipc.V5.Mpsc

namespace Shmipc
namespace V5

/-!
# The geometry of rings and data queues

Neither peer tells the other how many slots a ring has.  Whoever creates a mapping sizes
it for a number of payloads, and both derive the slots from the length of the mapping.
All sizes are `usize`, so the arithmetic is reduced modulo `2 ^ 64`.
-/

/-- `next_power_of_two` of a `usize`, as the standard library computes it. -/
def nextPowerOfTwo (n : Nat) : Nat := if n <= 1 then 1 else 2 ^ ((n - 1).log2 + 1)

/-- Bytes of a ring that holds at least `cap` payloads, in whole pages. -/
def mpscMemSize (sizeOf cap : Nat) : Nat :=
  let size := (mpscHeaderSize + nextPowerOfTwo cap * slotSize sizeOf) % 2 ^ 64
  (size + pageSize - 1) % 2 ^ 64 / pageSize * pageSize

/-- Payloads that a mapping of `mappingLen` bytes holds. -/
def mpscCap (sizeOf mappingLen : Nat) : Nat :=
  let slots := (mappingLen - mpscHeaderSize) / slotSize sizeOf
  if slots = 0 then 0 else 1 <<< slots.log2

namespace Mpsc

/-- A ring in memory that is zeroed. -/
def new (alignOf sizeOf base len : Nat) : Except LayoutError Mpsc :=
  fromRawParts alignOf sizeOf base len

/-- A ring that the peer has initialised. -/
def map (alignOf sizeOf base len : Nat) : Except LayoutError Mpsc :=
  fromRawParts alignOf sizeOf base len

/-- `slot_ptr`: where the slot of a position starts, from the base of the mapping. -/
def slotOffset (ring : Mpsc) (position : Nat) : Nat :=
  mpscHeaderSize + (ring.slotIndex position <<< ring.slotShift)

end Mpsc

/-! ## Data queues -/

def queueHeaderSize : Nat := 64

/-- `size_of` and `align_of` of an `Element`: a stream id, an operation with its padding
and eight bytes of payload. -/
def elementSize : Nat := 16

def elementAlign : Nat := 4

def queueMemSize (cap : Nat) : Nat :=
  (queueHeaderSize + mpscMemSize elementSize cap) % 2 ^ 64

def queueCap (mappingLen : Nat) : Nat :=
  if mappingLen < queueHeaderSize then 0
  else
    let ringLen := mappingLen - queueHeaderSize
    if ringLen % pageSize ≠ 0 then 0 else mpscCap elementSize ringLen

inductive QueueError
  | invalidQueueSize (size : Nat)
  | mappingTooSmall (size : Nat)
  | layout (error : LayoutError)
  deriving DecidableEq

def validateQueueSize (size : Nat) : Except QueueError Unit :=
  if size < queueHeaderSize + pageSize then .error (.invalidQueueSize size)
  else if (size - queueHeaderSize) % pageSize ≠ 0 then .error (.invalidQueueSize size)
  else .ok ()

namespace DataQueue

/-- The ring of a queue that is created in a mapping at `base`. -/
def create (base cap : Nat) : Except QueueError Mpsc :=
  let size := queueMemSize cap
  (Mpsc.new elementAlign elementSize (base + queueHeaderSize)
    (size - queueHeaderSize)).mapError .layout

/-- The ring of a queue whose mapping of `size` bytes came from the peer. -/
def map (base size : Nat) : Except QueueError Mpsc := do
  validateQueueSize size
  if queueCap size = 0 then throw (.mappingTooSmall size)
  (Mpsc.map elementAlign elementSize (base + queueHeaderSize)
    (size - queueHeaderSize)).mapError .layout

end DataQueue

/-! ## Sizes -/

theorem nextPowerOfTwo_spec (n : Nat) :
    n <= nextPowerOfTwo n /\ Exists fun k => nextPowerOfTwo n = 2 ^ k := by
  unfold nextPowerOfTwo
  split
  · next small => exact ⟨small, 0, rfl⟩
  · have above : n - 1 < 2 ^ ((n - 1).log2 + 1) := Nat.lt_log2_self
    exact ⟨by omega, _, rfl⟩

theorem slotSize_eq (sizeOf : Nat) : slotSize sizeOf = 2 ^ (slotSize sizeOf).log2 := by
  rcases Nat.isPowerOfTwo_nextPowerOfTwo (slotHeaderSize + sizeOf) with ⟨k, power⟩
  rw [slotSize, power, Nat.log2_two_pow]

variable {sizeOf cap alignOf base : Nat} {ring : Mpsc}

theorem mpscMemSize_bounds
    (small : mpscHeaderSize + nextPowerOfTwo cap * slotSize sizeOf + (pageSize - 1) < 2 ^ 64) :
    mpscMemSize sizeOf cap % pageSize = 0 /\
      mpscHeaderSize + nextPowerOfTwo cap * slotSize sizeOf <= mpscMemSize sizeOf cap := by
  have page : pageSize = 4096 := rfl
  generalize used : mpscHeaderSize + nextPowerOfTwo cap * slotSize sizeOf = size at small
  rw [mpscMemSize, used]
  rw [page] at small ⊢
  rw [Nat.mod_eq_of_lt (show size < 2 ^ 64 by omega),
    Nat.mod_eq_of_lt (show size + 4096 - 1 < 2 ^ 64 by omega)]
  constructor
  · exact Nat.mul_mod_left ..
  · omega

/-! ## What both sides derive -/

/-- The slots of a ring lie behind its header inside a mapping of `len` bytes, and two
positions have bytes in common only if they are a multiple of the capacity apart. -/
structure Mpsc.Fits (ring : Mpsc) (slot len : Nat) : Prop where
  inside : ∀ position < 2 ^ 64, mpscHeaderSize <= ring.slotOffset position /\
    ring.slotOffset position + slot <= len
  apart : ∀ one < 2 ^ 64, ∀ other < 2 ^ 64, one % ring.cap ≠ other % ring.cap ->
    ring.slotOffset one + slot <= ring.slotOffset other \/
      ring.slotOffset other + slot <= ring.slotOffset one

variable {len size : Nat}

theorem fromRawParts_eq_ok :
    Mpsc.fromRawParts alignOf sizeOf base len = .ok ring <->
      alignOf <= maxPayloadAlign /\ len % pageSize = 0 /\ mpscHeaderSize <= len /\
      base % maxPayloadAlign = 0 /\
      (len - mpscHeaderSize) >>> (slotSize sizeOf).log2 ≠ 0 /\
      ring = ⟨((len - mpscHeaderSize) >>> (slotSize sizeOf).log2).log2, (slotSize sizeOf).log2,
        _, rfl⟩ := by
  unfold Mpsc.fromRawParts
  dsimp only
  constructor
  · intro accepted
    split_ifs at accepted
    cases accepted
    exact ⟨by omega, by omega, by omega, by omega, by assumption, rfl⟩
  · rintro ⟨aligned, whole, header, based, some, rfl⟩
    rw [if_neg (Nat.not_lt.mpr aligned), if_neg (not_not.mpr whole),
      if_neg (Nat.not_lt.mpr header), if_neg (not_not.mpr based), if_neg some]

namespace Mpsc

variable {ring : Mpsc}

theorem slotOffset_add_le {slot one other : Nat} (size : slot = 2 ^ ring.slotShift)
    (less : one % ring.cap < other % ring.cap) :
    ring.slotOffset one + slot <= ring.slotOffset other := by
  rw [slotOffset, slotOffset, slotIndex_eq_mod, slotIndex_eq_mod, Nat.shiftLeft_eq, Nat.shiftLeft_eq]
  have step := Nat.mul_le_mul_right (2 ^ ring.slotShift) less
  rw [Nat.succ_mul] at step
  omega

end Mpsc

/-- The ring that is derived from a mapping has the capacity that `mpsc_cap` tells, and it
fits the mapping. -/
theorem fits_of_fromRawParts (accepted : Mpsc.fromRawParts alignOf sizeOf base len = .ok ring) :
    ring.cap = mpscCap sizeOf len /\ ring.Fits (slotSize sizeOf) len := by
  rcases fromRawParts_eq_ok.mp accepted with ⟨_, _, header, _, some, rfl⟩
  have slot := slotSize_eq sizeOf
  rw [Nat.shiftRight_eq_div_pow, <- slot] at some ⊢
  generalize slots : (len - mpscHeaderSize) / slotSize sizeOf = count at some
  have power : 2 ^ count.log2 <= count := Nat.log2_self_le some
  have room : count * slotSize sizeOf <= len - mpscHeaderSize := by
    rw [<- slots]
    exact Nat.div_mul_le_self ..
  refine ⟨?_, fun position _ => ⟨Nat.le_add_right .., ?_⟩, fun one _ other _ different => ?_⟩
  · rw [Mpsc.cap_eq, mpscCap, slots]
    dsimp only
    rw [if_neg some, Nat.one_shiftLeft]
  · have less : position % 2 ^ count.log2 + 1 <= count :=
      Nat.le_trans (Nat.mod_lt _ (Nat.two_pow_pos _)) power
    have last := Nat.mul_le_mul_right (slotSize sizeOf) less
    rw [Nat.succ_mul] at last
    rw [Mpsc.slotOffset, Mpsc.slotIndex_eq_mod, Mpsc.cap_eq, Nat.shiftLeft_eq]
    dsimp only
    rw [<- slot]
    omega
  · rcases Nat.lt_or_gt_of_ne different with less | less
    · exact .inl (Mpsc.slotOffset_add_le slot less)
    · exact .inr (Mpsc.slotOffset_add_le slot less)

/-- A mapping of the size that was asked for is accepted, and it holds as many payloads. -/
theorem fromRawParts_mpscMemSize (aligned : alignOf <= maxPayloadAlign)
    (based : base % maxPayloadAlign = 0)
    (small : mpscHeaderSize + nextPowerOfTwo cap * slotSize sizeOf + (pageSize - 1) < 2 ^ 64) :
    Exists fun ring =>
      Mpsc.fromRawParts alignOf sizeOf base (mpscMemSize sizeOf cap) = .ok ring /\
      cap <= ring.cap /\ Exists fun k => ring.cap = 2 ^ k := by
  rcases nextPowerOfTwo_spec cap with ⟨enough, k, power⟩
  rcases mpscMemSize_bounds small with ⟨whole, long⟩
  have slot := slotSize_eq sizeOf
  have positive : 0 < slotSize sizeOf := slot ▸ Nat.two_pow_pos _
  generalize mpscMemSize sizeOf cap = len at whole long ⊢
  -- the slots that were asked for are among those that fit
  have slots : 2 ^ k <= (len - mpscHeaderSize) >>> (slotSize sizeOf).log2 := by
    rw [Nat.shiftRight_eq_div_pow, <- slot, Nat.le_div_iff_mul_le positive, <- power]
    omega
  have some : (len - mpscHeaderSize) >>> (slotSize sizeOf).log2 ≠ 0 := by
    have := Nat.two_pow_pos k
    omega
  refine ⟨_, fromRawParts_eq_ok.mpr ⟨aligned, whole, by omega, based, some, rfl⟩, ?_⟩
  rw [Mpsc.cap_eq]
  refine ⟨?_, _, rfl⟩
  rw [power] at enough
  exact enough.trans (Nat.pow_le_pow_right (by decide) ((Nat.le_log2 some).mpr slots))

/-! ## Data queues over rings -/

theorem queueMemSize_eq (cap : Nat) :
    queueMemSize cap = queueHeaderSize + mpscMemSize elementSize cap := by
  have page : pageSize = 4096 := rfl
  have header : queueHeaderSize = 64 := rfl
  rw [queueMemSize, Nat.mod_eq_of_lt]
  rw [mpscMemSize, header, page]
  -- a whole number of pages below `2 ^ 64` leaves room for the header
  omega

theorem queueCap_add {ringLen : Nat} (whole : ringLen % pageSize = 0) :
    queueCap (queueHeaderSize + ringLen) = mpscCap elementSize ringLen := by
  rw [queueCap, if_neg (by omega), Nat.add_sub_cancel_left]
  exact if_neg (not_not.mpr whole)

theorem mapError_eq_ok {error other value : Type} {f : error -> other}
    {result : Except error value} {v : value} :
    result.mapError f = .ok v <-> result = .ok v := by
  cases result with
  | error _ => exact ⟨nofun, nofun⟩
  | ok _ => exact ⟨fun same => by cases same; rfl, fun same => by cases same; rfl⟩

theorem create_eq_ok :
    DataQueue.create base cap = .ok ring <->
      Mpsc.fromRawParts elementAlign elementSize (base + queueHeaderSize)
        (mpscMemSize elementSize cap) = .ok ring := by
  rw [DataQueue.create, queueMemSize_eq, Nat.add_sub_cancel_left]
  exact mapError_eq_ok

theorem validateQueueSize_eq_ok :
    validateQueueSize size = .ok () <->
      queueHeaderSize + pageSize <= size /\ (size - queueHeaderSize) % pageSize = 0 := by
  unfold validateQueueSize
  split
  · next short => exact ⟨nofun, fun checked => absurd checked.1 (Nat.not_le.mpr short)⟩
  · next long =>
    split
    · next rest => exact ⟨nofun, fun checked => absurd checked.2 rest⟩
    · next whole => exact ⟨fun _ => ⟨Nat.not_lt.mp long, not_not.mp whole⟩, fun _ => rfl⟩

/-- The two checks before the ring's own refuse nothing that the ring would accept. -/
theorem map_eq_ok :
    DataQueue.map base size = .ok ring <->
      queueHeaderSize <= size /\
      Mpsc.fromRawParts elementAlign elementSize (base + queueHeaderSize)
        (size - queueHeaderSize) = .ok ring := by
  unfold DataQueue.map
  constructor
  · intro mapped
    cases valid : validateQueueSize size with
    | error _ =>
      rw [valid] at mapped
      cases mapped
    | ok _ =>
      rw [valid] at mapped
      by_cases none : queueCap size = 0
      · rw [if_pos none] at mapped
        cases mapped
      · rw [if_neg none] at mapped
        have long := (validateQueueSize_eq_ok.mp valid).1
        exact ⟨Nat.le_of_add_right_le long, mapError_eq_ok.mp mapped⟩
  · rintro ⟨long, accepted⟩
    rcases fromRawParts_eq_ok.mp accepted with ⟨_, whole, header, _⟩
    have pages : queueHeaderSize + pageSize <= size := by
      have positive : 0 < size - queueHeaderSize := Nat.lt_of_lt_of_le (by decide) header
      have page := Nat.le_of_dvd positive (Nat.dvd_of_mod_eq_zero whole)
      omega
    have valid := validateQueueSize_eq_ok.mpr ⟨pages, whole⟩
    have some : queueCap size ≠ 0 := by
      rw [<- Nat.add_sub_cancel' long, queueCap_add whole, <- (fits_of_fromRawParts accepted).1]
      exact Nat.succ_ne_zero _
    rw [valid]
    change (if queueCap size = 0 then throw _ else _) = _
    rw [if_neg some]
    exact mapError_eq_ok.mpr accepted

/-- Both peers derive one geometry: a mapping of the size that was asked for is accepted on
both sides and holds as many payloads, and whatever length is accepted, its capacity is the
one that the length tells and no slot leaves the mapping or meets another one. -/
theorem geometry_agrees {alignOf : Nat} (aligned : alignOf <= maxPayloadAlign) (sizeOf : Nat) :
    (forall base n, base % maxPayloadAlign = 0 -> 1 <= n ->
      mpscHeaderSize + nextPowerOfTwo n * slotSize sizeOf + (pageSize - 1) < 2 ^ 64 ->
      Exists fun ring =>
        Mpsc.new alignOf sizeOf base (mpscMemSize sizeOf n) = .ok ring /\
        Mpsc.map alignOf sizeOf base (mpscMemSize sizeOf n) = .ok ring /\
        n <= ring.cap /\ Exists fun k => ring.cap = 2 ^ k) /\
    (forall base n, base % pageSize = 0 -> 1 <= n ->
      mpscHeaderSize + nextPowerOfTwo n * slotSize elementSize + (pageSize - 1) < 2 ^ 64 ->
      Exists fun ring =>
        DataQueue.create base n = .ok ring /\
        DataQueue.map base (queueMemSize n) = .ok ring /\
        n <= ring.cap /\ Exists fun k => ring.cap = 2 ^ k) /\
    (forall base len ring,
      Mpsc.new alignOf sizeOf base len = .ok ring \/
        Mpsc.map alignOf sizeOf base len = .ok ring ->
      ring.cap = mpscCap sizeOf len /\ ring.Fits (slotSize sizeOf) len) /\
    (forall base n ring, DataQueue.create base n = .ok ring ->
      ring.cap = queueCap (queueMemSize n) /\
        ring.Fits (slotSize elementSize) (queueMemSize n - queueHeaderSize)) /\
    forall base size ring, DataQueue.map base size = .ok ring ->
      ring.cap = queueCap size /\
        ring.Fits (slotSize elementSize) (size - queueHeaderSize) := by
  refine ⟨?_, ?_, ?_, ?_, ?_⟩
  · intro base n based _ small
    rcases fromRawParts_mpscMemSize aligned based small with ⟨ring, accepted, enough⟩
    exact ⟨ring, accepted, accepted, enough⟩
  · intro base n based _ small
    have ringBase : (base + queueHeaderSize) % maxPayloadAlign = 0 := by
      unfold queueHeaderSize maxPayloadAlign
      unfold pageSize at based
      omega
    have element : elementAlign <= maxPayloadAlign := by decide
    rcases fromRawParts_mpscMemSize element ringBase small with ⟨ring, accepted, enough⟩
    refine ⟨ring, create_eq_ok.mpr accepted, map_eq_ok.mpr ?_, enough⟩
    rw [queueMemSize_eq, Nat.add_sub_cancel_left]
    exact ⟨Nat.le_add_right .., accepted⟩
  · rintro base len ring (accepted | accepted)
    · exact fits_of_fromRawParts accepted
    · exact fits_of_fromRawParts accepted
  · intro base n ring created
    have accepted := create_eq_ok.mp created
    rw [queueMemSize_eq, Nat.add_sub_cancel_left,
      queueCap_add (fromRawParts_eq_ok.mp accepted).2.1]
    exact fits_of_fromRawParts accepted
  · intro base size ring mapped
    rcases map_eq_ok.mp mapped with ⟨long, accepted⟩
    have cap := queueCap_add (fromRawParts_eq_ok.mp accepted).2.1
    rw [Nat.add_sub_cancel' long] at cap
    rw [cap]
    exact fits_of_fromRawParts accepted

/-- Eight-byte payloads: a ring for three of them takes one page. -/
theorem geometry_agrees_for_words :
    Exists fun ring =>
      Mpsc.new 8 8 4096 (mpscMemSize 8 3) = .ok ring /\
      Mpsc.map 8 8 4096 (mpscMemSize 8 3) = .ok ring /\
      3 <= ring.cap /\ Exists fun k => ring.cap = 2 ^ k :=
  (geometry_agrees (by decide) 8).1 4096 3 (by decide) (by decide) (by decide +kernel)

end V5
end Shmipc
