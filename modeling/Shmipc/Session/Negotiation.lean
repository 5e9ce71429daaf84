import Mathlib.Algebra.Ring.Int.Defs
import Shmipc.Config

namespace Shmipc
namespace Session

/-!
# Negotiation

A client offers protocols and at most one wakeup feature, and the server answers with
what it has selected.  The client checks the protocol against its offer.  The feature it
reads off the answer alone: polling goes before eventfd, and only the interval may come
from the request.  The server selects the newest protocol that was offered, and polling
before eventfd.  Both messages are JSON and taken as parsed.
-/

/-- The values of JSON.  Numbers that are not integers are kept apart, since no integer is
ever read from one. -/
inductive Value where
  | null
  | bool (value : Bool)
  | integer (value : Int)
  | float (text : String)
  | string (value : String)
  | array (items : List Value)
  | object (fields : List (String × Value))

def protoVersionV4 : Nat := 4

def protoVersionV5 : Nat := 5

def featureEventQueuePolling : String := "event_queue_polling"

def featureEventfdWakeup : String := "eventfd_wakeup"

/-- The value on Linux; elsewhere the source has it false. -/
def eventfdSupported : Bool := true

/-- Why a request cannot be made or an answer is not understood. -/
inductive SettingsError where
  | intervalTooLarge
  | zeroInterval
  | eventfdUnsupported
  | missingSettings
  | notSettings
  deriving DecidableEq

structure EventQueuePollingSettings where
  pollingIntervalUs : Nat
  deriving DecidableEq

namespace EventQueuePollingSettings

/-- Intervals are in nanoseconds. -/
def fromInterval (interval : Nat) : Except SettingsError EventQueuePollingSettings :=
  if 2 ^ 64 <= interval / 1000 then .error .intervalTooLarge
  else if interval / 1000 = 0 then .error .zeroInterval
  else .ok ⟨interval / 1000⟩

def interval (settings : EventQueuePollingSettings) : Except SettingsError Nat :=
  if settings.pollingIntervalUs = 0 then .error .zeroInterval
  else .ok (settings.pollingIntervalUs * 1000)

def toValue (settings : EventQueuePollingSettings) : Value :=
  .object [("polling_interval_us", .integer settings.pollingIntervalUs)]

def u64OfValue : Value -> Option Nat
  | .integer value => if 0 <= value /\ value < 2 ^ 64 then some value.toNat else none
  | _ => none

/-- A struct is read from an object, or from an array with its fields in order. -/
def fromValue : Value -> Option EventQueuePollingSettings
  | .object fields => (fields.lookup "polling_interval_us").bind u64OfValue |>.map mk
  | .array [item] => (u64OfValue item).map mk
  | _ => none

end EventQueuePollingSettings

structure NegotiationRequest where
  supportsProtocols : List Nat
  supportsFeatures : List String
  settings : List (String × Value)

def NegotiationRequest.fromConfig (config : Config) :
    Except SettingsError NegotiationRequest := do
  let supportsProtocols :=
    match config.protocol.mode with
    | .v5 _ => [protoVersionV5, protoVersionV4]
    | .v4 _ => [protoVersionV4]
    | .legacy => []
  match config.protocol.wakeup with
  | .default => return ⟨supportsProtocols, [], []⟩
  | .eventQueuePolling interval =>
    let setting <- EventQueuePollingSettings.fromInterval interval
    return ⟨supportsProtocols, [featureEventQueuePolling],
      [(featureEventQueuePolling, setting.toValue)]⟩
  | .eventFd =>
    if eventfdSupported = false then throw .eventfdUnsupported
    return ⟨supportsProtocols, [featureEventfdWakeup], []⟩

structure NegotiationError where
  code : String
  message : String

structure NegotiationResponse where
  selectedProtocol : Nat
  selectedFeatures : List String
  settings : List (String × Value)
  error : Option NegotiationError

inductive NegotiatedFeature where
  | none
  | eventQueuePolling (interval : Nat)
  | eventFd
  deriving DecidableEq

/-- What a feature is called in the messages. -/
def NegotiatedFeature.name : NegotiatedFeature -> Option String
  | .none => Option.none
  | .eventQueuePolling _ => featureEventQueuePolling
  | .eventFd => featureEventfdWakeup

inductive NegotiationInitError where
  | request (source : SettingsError)
  | rejected (error : NegotiationError)
  | unsupportedProtocol (version : Nat)
  | invalidResponse (source : SettingsError)

def NegotiationResponse.selectedFeatureForRequest (response : NegotiationResponse)
    (request : NegotiationRequest) : Except SettingsError NegotiatedFeature :=
  if featureEventQueuePolling ∈ response.selectedFeatures then
    match (response.settings.lookup featureEventQueuePolling).or
        (request.settings.lookup featureEventQueuePolling) with
    | none => .error .missingSettings
    | some value =>
      match EventQueuePollingSettings.fromValue value with
      | none => .error .notSettings
      | some setting => setting.interval.map .eventQueuePolling
  else if featureEventfdWakeup ∈ response.selectedFeatures then .ok .eventFd
  else .ok .none

/-- The client's half, with the answer that comes back. -/
def negotiateClient (config : Config) (response : NegotiationResponse) :
    Except NegotiationInitError (NegotiationResponse × NegotiatedFeature) :=
  match NegotiationRequest.fromConfig config with
  | .error err => .error (.request err)
  | .ok request =>
    match response.error with
    | some err => .error (.rejected err)
    | none =>
      if response.selectedProtocol ∉ request.supportsProtocols then
        .error (.unsupportedProtocol response.selectedProtocol)
      else
        match response.selectedFeatureForRequest request with
        | .error err => .error (.invalidResponse err)
        | .ok feature => .ok (response, feature)

/-! ## What was offered -/

/-- The client has offered the protocol and the feature that it ends up with. -/
def Offered (config : Config) (response : NegotiationResponse) (feature : NegotiatedFeature) :
    Prop :=
  Exists fun request => NegotiationRequest.fromConfig config = .ok request /\
    response.selectedProtocol ∈ request.supportsProtocols /\
    ∀ name ∈ feature.name, name ∈ request.supportsFeatures

/-- An answer that is otherwise in order selects a feature that the client did not ask for:
polling, with an interval of its own, or else eventfd. -/
def SelectsForeign (config : Config) (response : NegotiationResponse) : Prop :=
  response.error = none /\
  (Exists fun request => NegotiationRequest.fromConfig config = .ok request /\
    response.selectedProtocol ∈ request.supportsProtocols) /\
  if featureEventQueuePolling ∈ response.selectedFeatures then
    (forall interval, config.protocol.wakeup ≠ .eventQueuePolling interval) /\
    Exists fun setting => setting.pollingIntervalUs ≠ 0 /\
      (response.settings.lookup featureEventQueuePolling).bind
        EventQueuePollingSettings.fromValue = some setting
  else featureEventfdWakeup ∈ response.selectedFeatures /\ config.protocol.wakeup ≠ .eventFd

variable {config : Config} {feature : NegotiatedFeature} {request : NegotiationRequest}

theorem negotiateClient_eq_ok {response r : NegotiationResponse} :
    negotiateClient config response = .ok (r, feature) <->
      r = response /\ response.error = none /\
      Exists fun request => NegotiationRequest.fromConfig config = .ok request /\
        response.selectedProtocol ∈ request.supportsProtocols /\
        response.selectedFeatureForRequest request = .ok feature := by
  unfold negotiateClient
  constructor
  · intro accepted
    split at accepted
    · cases accepted
    · next request made =>
      split at accepted
      · cases accepted
      · next noError =>
        split at accepted
        · cases accepted
        · next listed =>
          split at accepted
          · cases accepted
          · next selected =>
            cases accepted
            exact ⟨rfl, noError, request, made, not_not.mp listed, selected⟩
  · rintro ⟨rfl, noError, request, made, listed, selected⟩
    rw [made, noError]
    dsimp only
    rw [if_neg (not_not.mpr listed), selected]

/-- The features of a request follow from the wakeup mode, and without polling among them
it has no settings. -/
theorem fromConfig_features (made : NegotiationRequest.fromConfig config = .ok request) :
    (featureEventQueuePolling ∈ request.supportsFeatures <->
      Exists fun interval => config.protocol.wakeup = .eventQueuePolling interval) /\
    (featureEventfdWakeup ∈ request.supportsFeatures <-> config.protocol.wakeup = .eventFd) /\
    (featureEventQueuePolling ∉ request.supportsFeatures -> request.settings = []) := by
  unfold NegotiationRequest.fromConfig at made
  cases wakeup : config.protocol.wakeup with
  | default =>
    rw [wakeup] at made
    cases made
    exact ⟨⟨nofun, nofun⟩, ⟨nofun, nofun⟩, fun _ => rfl⟩
  | eventQueuePolling interval =>
    rw [wakeup] at made
    cases encoded : EventQueuePollingSettings.fromInterval interval with
    | error err =>
      simp only [encoded] at made
      cases made
    | ok setting =>
      simp only [encoded] at made
      cases made
      refine ⟨⟨fun _ => ⟨interval, rfl⟩, fun _ => List.mem_singleton_self _⟩, ⟨?_, nofun⟩, ?_⟩
      · exact fun listed => absurd (List.mem_singleton.mp listed) (by decide)
      · exact fun absent => absurd (List.mem_singleton_self _) absent
  | eventFd =>
    rw [wakeup] at made
    cases made
    refine ⟨⟨?_, nofun⟩, ⟨fun _ => rfl, fun _ => List.mem_singleton_self _⟩, fun _ => rfl⟩
    exact fun listed => absurd (List.mem_singleton.mp listed) (by decide)

theorem interval_map_eq_ok {setting : EventQueuePollingSettings} :
    setting.interval.map .eventQueuePolling = .ok feature <->
      setting.pollingIntervalUs ≠ 0 /\
        feature = .eventQueuePolling (setting.pollingIntervalUs * 1000) := by
  unfold EventQueuePollingSettings.interval
  split
  · next zero => exact ⟨nofun, fun wanted => absurd zero wanted.1⟩
  · next positive =>
    refine ⟨fun same => ⟨positive, ?_⟩, fun wanted => wanted.2 ▸ rfl⟩
    cases same
    rfl

/-- The feature that is read off an answer is foreign to the request in two cases. -/
theorem selectedFeature_foreign_iff (made : NegotiationRequest.fromConfig config = .ok request)
    (response : NegotiationResponse) :
    (Exists fun feature => response.selectedFeatureForRequest request = .ok feature /\
        ∃ name ∈ feature.name, name ∉ request.supportsFeatures) <->
      if featureEventQueuePolling ∈ response.selectedFeatures then
        (forall interval, config.protocol.wakeup ≠ .eventQueuePolling interval) /\
        Exists fun setting => setting.pollingIntervalUs ≠ 0 /\
          (response.settings.lookup featureEventQueuePolling).bind
            EventQueuePollingSettings.fromValue = some setting
      else featureEventfdWakeup ∈ response.selectedFeatures /\
        config.protocol.wakeup ≠ .eventFd := by
  rcases fromConfig_features made with ⟨polling, eventfd, noSettings⟩
  unfold NegotiationResponse.selectedFeatureForRequest
  by_cases selected : featureEventQueuePolling ∈ response.selectedFeatures
  · simp only [if_pos selected]
    rw [<- not_exists, <- polling]
    constructor
    · rintro ⟨feature, read, name, named, foreign⟩
      split at read
      · cases read
      · next value found =>
        split at read
        · cases read
        · next setting decoded =>
          rcases interval_map_eq_ok.mp read with ⟨positive, rfl⟩
          cases named
          rw [noSettings foreign, List.lookup_nil, Option.or_none] at found
          exact ⟨foreign, setting, positive, by rw [found]; exact decoded⟩
    · rintro ⟨foreign, setting, positive, decoded⟩
      rcases Option.bind_eq_some_iff.mp decoded with ⟨value, found, decoded⟩
      refine ⟨.eventQueuePolling (setting.pollingIntervalUs * 1000), ?_,
        featureEventQueuePolling, rfl, foreign⟩
      rw [found, Option.some_or]
      dsimp only
      rw [decoded]
      exact interval_map_eq_ok.mpr ⟨positive, rfl⟩
  · simp only [if_neg selected]
    rw [Ne, <- eventfd]
    constructor
    · rintro ⟨feature, read, name, named, foreign⟩
      split at read
      · next chosen =>
        cases read
        cases named
        exact ⟨chosen, foreign⟩
      · cases read
        cases named
    · rintro ⟨chosen, foreign⟩
      refine ⟨.eventFd, ?_, featureEventfdWakeup, rfl, foreign⟩
      rw [if_pos chosen]

/-- A client ends up with what it has offered, or with an error, exactly if the answer does
not select a feature that it did not ask for. -/
theorem client_ends_up_with_offer_iff (config : Config) (response : NegotiationResponse) :
    (forall r feature, negotiateClient config response = .ok (r, feature) ->
      r = response /\ Offered config response feature) <->
    ¬ SelectsForeign config response := by
  constructor
  · rintro safe ⟨noError, ⟨request, made, listed⟩, foreign⟩
    rcases (selectedFeature_foreign_iff made response).mpr foreign with
      ⟨feature, read, name, named, notOffered⟩
    have accepted := negotiateClient_eq_ok.mpr ⟨rfl, noError, request, made, listed, read⟩
    rcases (safe _ _ accepted).2 with ⟨request', made', _, offered⟩
    cases made.symm.trans made'
    exact notOffered (offered name named)
  · intro allowed r feature accepted
    rcases negotiateClient_eq_ok.mp accepted with ⟨same, noError, request, made, listed, read⟩
    refine ⟨same, request, made, listed, fun name named => ?_⟩
    by_contra notOffered
    have foreign := (selectedFeature_foreign_iff made response).mp
      ⟨feature, read, name, named, notOffered⟩
    exact allowed ⟨noError, ⟨request, made, listed⟩, foreign⟩

/-- A client that asked for no wakeup feature takes eventfd from the answer. -/
theorem client_takes_foreign_feature :
    Exists fun config => Exists fun response =>
      negotiateClient config response = .ok (response, .eventFd) /\
        ¬ Offered config response .eventFd := by
  refine ⟨{ Config.default with protocol := ⟨.v4 false, .default⟩ },
    ⟨protoVersionV4, [featureEventfdWakeup], [], none⟩, rfl, ?_⟩
  rintro ⟨request, made, _, offered⟩
  cases made
  exact absurd (offered featureEventfdWakeup rfl) List.not_mem_nil

/-! ## The server's half -/

def selectProtocol (request : NegotiationRequest) : Option Nat :=
  if protoVersionV5 ∈ request.supportsProtocols then some protoVersionV5
  else if protoVersionV4 ∈ request.supportsProtocols then some protoVersionV4
  else none

/-- The interval that a request asks to poll in, if its settings are in order. -/
def NegotiationRequest.pollingInterval (request : NegotiationRequest) : Option Nat :=
  (request.settings.lookup featureEventQueuePolling).bind fun value =>
    (EventQueuePollingSettings.fromValue value).bind fun setting => setting.interval.toOption

def selectFeature (request : NegotiationRequest) : NegotiatedFeature :=
  let polling :=
    if featureEventQueuePolling ∈ request.supportsFeatures then request.pollingInterval else none
  match polling with
  | some interval => .eventQueuePolling interval
  | none =>
    if featureEventfdWakeup ∈ request.supportsFeatures /\ eventfdSupported = true then .eventFd
    else .none

def NegotiationResponse.versionNotSupported : NegotiationResponse :=
  ⟨0, [], [], some ⟨"VERSION_NOT_SUPPORTED", "protocol version is not supported"⟩⟩

def NegotiationResponse.ok (selectedProtocol : Nat) (feature : NegotiatedFeature) :
    Except SettingsError NegotiationResponse :=
  match feature with
  | .none => .ok ⟨selectedProtocol, [], [], none⟩
  | .eventQueuePolling interval => do
    let setting <- EventQueuePollingSettings.fromInterval interval
    return ⟨selectedProtocol, [featureEventQueuePolling],
      [(featureEventQueuePolling, setting.toValue)], none⟩
  | .eventFd => .ok ⟨selectedProtocol, [featureEventfdWakeup], [], none⟩

/-- What the server comes to.  It answers a request that it refuses, too, but not if it
cannot put its choice into an answer. -/
inductive ServerNegotiation where
  | selected (response : NegotiationResponse) (feature : NegotiatedFeature)
  | refused (response : NegotiationResponse)
  | failed (source : SettingsError)

def negotiateServer (request : NegotiationRequest) : ServerNegotiation :=
  match selectProtocol request with
  | none => .refused .versionNotSupported
  | some version =>
    let feature := selectFeature request
    match NegotiationResponse.ok version feature with
    | .error err => .failed err
    | .ok response => .selected response feature

/-- The newest protocol that was offered is selected, with a feature that was offered, and
a client reads that feature off the answer.  A request is refused only if it offers neither
protocol, and the client is told so. -/
def Settles (request : NegotiationRequest) : ServerNegotiation -> Prop
  | .selected response feature =>
    response.error = none /\
    response.selectedProtocol ∈ request.supportsProtocols /\
    (∀ version ∈ [protoVersionV4, protoVersionV5], version ∈ request.supportsProtocols ->
      version <= response.selectedProtocol) /\
    response.selectedFeatureForRequest request = .ok feature /\
    ∀ name ∈ feature.name, name ∈ request.supportsFeatures
  | .refused response =>
    response.error.isSome = true /\ protoVersionV4 ∉ request.supportsProtocols /\
      protoVersionV5 ∉ request.supportsProtocols
  | .failed _ => False

namespace EventQueuePollingSettings

theorem fromValue_lt {value : Value} {setting : EventQueuePollingSettings}
    (decoded : fromValue value = some setting) : setting.pollingIntervalUs < 2 ^ 64 := by
  have inside {item : Value} {micros : Nat} (read : u64OfValue item = some micros) :
      micros < 2 ^ 64 := by
    cases item with
    | integer number =>
      rw [u64OfValue, Option.ite_none_right_eq_some] at read
      rcases read with ⟨⟨nonnegative, below⟩, same⟩
      cases same
      exact (Int.toNat_lt nonnegative).mpr (by exact_mod_cast below)
    | _ => cases read
  unfold fromValue at decoded
  split at decoded
  · rcases Option.map_eq_some_iff.mp decoded with ⟨micros, read, rfl⟩
    rcases Option.bind_eq_some_iff.mp read with ⟨item, _, read⟩
    exact inside read
  · rcases Option.map_eq_some_iff.mp decoded with ⟨micros, read, rfl⟩
    exact inside read
  · cases decoded

theorem fromValue_toValue {micros : Nat} (fits : micros < 2 ^ 64) :
    fromValue (toValue ⟨micros⟩) = some ⟨micros⟩ := by
  have inside : 0 <= (micros : Int) /\ (micros : Int) < 2 ^ 64 :=
    ⟨Int.natCast_nonneg _, by exact_mod_cast fits⟩
  rw [toValue, fromValue, List.lookup_cons_self, Option.bind_some, u64OfValue, if_pos inside,
    Int.toNat_natCast, Option.map_some]

theorem fromInterval_eq_ok {interval micros : Nat} (same : interval / 1000 = micros)
    (positive : micros ≠ 0) (fits : micros < 2 ^ 64) : fromInterval interval = .ok ⟨micros⟩ := by
  rw [fromInterval, same, if_neg (Nat.not_le.mpr fits), if_neg positive]

end EventQueuePollingSettings

/-- A feature that the server can announce. -/
def NegotiatedFeature.Encodable (feature : NegotiatedFeature) : Prop :=
  forall interval, feature = .eventQueuePolling interval ->
    Exists fun micros => interval = micros * 1000 /\ micros ≠ 0 /\ micros < 2 ^ 64

-- The value is a variable here, so that nothing compares the texts of its keys.
theorem selectedFeature_polling {response : NegotiationResponse} (request : NegotiationRequest)
    {value : Value} {micros : Nat}
    (chosen : featureEventQueuePolling ∈ response.selectedFeatures)
    (found : response.settings.lookup featureEventQueuePolling = some value)
    (decoded : EventQueuePollingSettings.fromValue value = some ⟨micros⟩)
    (positive : micros ≠ 0) :
    response.selectedFeatureForRequest request = .ok (.eventQueuePolling (micros * 1000)) := by
  rw [NegotiationResponse.selectedFeatureForRequest, if_pos chosen, found, Option.some_or]
  dsimp only
  rw [decoded]
  exact interval_map_eq_ok.mpr ⟨positive, rfl⟩

/-- The answer says what was selected, whatever was asked. -/
theorem NegotiationResponse.ok_read_back (encodable : feature.Encodable) (version : Nat) :
    Exists fun response => NegotiationResponse.ok version feature = .ok response /\
      response.error = none /\ response.selectedProtocol = version /\
      forall request, response.selectedFeatureForRequest request = .ok feature := by
  cases feature with
  | none | eventFd => exact ⟨_, rfl, rfl, rfl, fun _ => rfl⟩
  | eventQueuePolling interval =>
    rcases encodable interval rfl with ⟨micros, rfl, positive, fits⟩
    have encoded := EventQueuePollingSettings.fromInterval_eq_ok
      (Nat.mul_div_cancel micros (by decide)) positive fits
    refine ⟨⟨version, [featureEventQueuePolling],
      [(featureEventQueuePolling, EventQueuePollingSettings.toValue ⟨micros⟩)], .none⟩, ?_, rfl,
      rfl, fun request => ?_⟩
    · simp only [NegotiationResponse.ok, encoded]
      rfl
    · exact selectedFeature_polling request (List.mem_singleton_self _) List.lookup_cons_self
        (EventQueuePollingSettings.fromValue_toValue fits) positive

theorem NegotiationRequest.pollingInterval_bounds {interval : Nat}
    (asked : request.pollingInterval = some interval) :
    Exists fun micros => interval = micros * 1000 /\ micros ≠ 0 /\ micros < 2 ^ 64 := by
  rcases Option.bind_eq_some_iff.mp asked with ⟨value, _, asked⟩
  rcases Option.bind_eq_some_iff.mp asked with ⟨⟨micros⟩, decoded, read⟩
  unfold EventQueuePollingSettings.interval at read
  split at read
  · cases read
  · next positive =>
    cases read
    exact ⟨micros, rfl, positive, EventQueuePollingSettings.fromValue_lt decoded⟩

theorem selectFeature_encodable (request : NegotiationRequest) :
    (selectFeature request).Encodable /\
      ∀ name ∈ (selectFeature request).name, name ∈ request.supportsFeatures := by
  unfold selectFeature
  dsimp only
  split
  · next interval polling =>
    rcases Option.ite_none_right_eq_some.mp polling with ⟨asked, set⟩
    constructor
    · intro interval same
      cases same
      exact request.pollingInterval_bounds set
    · intro name named
      cases named
      exact asked
  · split
    · next asked =>
      refine ⟨fun _ same => (by cases same), fun name named => ?_⟩
      cases named
      exact asked.1
    · exact ⟨fun _ same => (by cases same), fun _ named => (by cases named)⟩

/-- Whatever a client asks for, the server settles it. -/
theorem server_settles (request : NegotiationRequest) :
    Settles request (negotiateServer request) := by
  rcases selectFeature_encodable request with ⟨encodable, offered⟩
  unfold negotiateServer
  cases chosen : selectProtocol request with
  | none =>
    unfold selectProtocol at chosen
    split_ifs at chosen with five four
    exact ⟨rfl, four, five⟩
  | some version =>
    rcases NegotiationResponse.ok_read_back encodable version with
      ⟨response, answered, noError, rfl, read⟩
    dsimp only
    rw [answered]
    unfold selectProtocol at chosen
    split_ifs at chosen with five four
    · have same := Option.some.inj chosen
      refine ⟨noError, same ▸ five, fun version known _ => ?_, read request, offered⟩
      rw [<- same]
      rcases List.mem_pair.mp known with rfl | rfl
      · decide
      · exact le_rfl
    · have same := Option.some.inj chosen
      refine ⟨noError, same ▸ four, fun version known listed => ?_, read request, offered⟩
      rcases List.mem_pair.mp known with rfl | rfl
      · exact same.le
      · exact absurd listed five

end Session
end Shmipc
