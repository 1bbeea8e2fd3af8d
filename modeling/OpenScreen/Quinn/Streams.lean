import OpenScreen.Quinn.Delivery

/-!
# Streams that are read in chunks

The three read loops of the adapter leave on the end of a stream and on a read
error alike, with what they have read so far.  `ReadResults` is what the calls
of `read_chunk` return, one after the other; a stream is complete when they end
with the end of the stream.

`streamsComplete` says when the content of a stream is handed on only for
complete streams: by `receive_message`, and by the authentication loops of the
client and the server.
-/

namespace OpenScreen
namespace Quinn

open Kit Common Crypto
open Network (NetworkInput NetworkMessage NetworkOutput Platform)

/-- The results of `read_chunk` on a receive stream, with errors `E`. -/
inductive ReadResults (E : Type) where
  | chunk (bytes : List UInt8) (rest : ReadResults E)
  | endOfStream
  | failed (error : E)
deriving DecidableEq

namespace ReadResults

variable {E : Type}

/-- The loop `while let Ok(Some(chunk)) = recv_stream.read_chunk(..)`. -/
def readLoop (buffer : List UInt8) : ReadResults E → List UInt8
  | chunk bytes rest => readLoop (buffer ++ bytes) rest
  | endOfStream => buffer
  | failed _ => buffer

/-- What the loops make of a stream. -/
def buffer (results : ReadResults E) : List UInt8 :=
  readLoop [] results

/-- The chunks of a stream, in order. -/
def chunks : ReadResults E → List (List UInt8)
  | chunk bytes rest => bytes :: rest.chunks
  | endOfStream => []
  | failed _ => []

/-- The results end with the end of the stream. -/
def Complete : ReadResults E → Prop
  | chunk _ rest => rest.Complete
  | endOfStream => True
  | failed _ => False

/-- The content of a complete stream. -/
def content : ReadResults E → Option (List UInt8)
  | chunk bytes rest => rest.content.map (bytes ++ ·)
  | endOfStream => some []
  | failed _ => none

/-- A stream has its chunks as content if it is complete, and none otherwise. -/
theorem content_eq_some_iff
    {results : ReadResults E} {data : List UInt8} :
    results.content = some data ↔
      results.Complete ∧ data = results.chunks.flatten := by
  induction results generalizing data with
  | chunk bytes rest ih =>
      simp only [content, Complete, chunks, List.flatten_cons,
        Option.map_eq_some_iff, ih]
      constructor
      · rintro ⟨tail, ⟨hcomplete, rfl⟩, rfl⟩
        exact ⟨hcomplete, rfl⟩
      · rintro ⟨hcomplete, rfl⟩
        exact ⟨_, ⟨hcomplete, rfl⟩, rfl⟩
  | endOfStream => simp [content, Complete, chunks, eq_comm]
  | failed error => simp [content, Complete]

theorem readLoop_eq
    (results : ReadResults E) (buffer : List UInt8) :
    readLoop buffer results = buffer ++ results.chunks.flatten := by
  induction results generalizing buffer with
  | chunk bytes rest ih => simp [readLoop, chunks, ih]
  | endOfStream => simp [readLoop, chunks]
  | failed error => simp [readLoop, chunks]

/-- The loops concatenate the chunks, however the stream ends. -/
theorem buffer_eq
    (results : ReadResults E) :
    results.buffer = results.chunks.flatten :=
  readLoop_eq results []

end ReadResults

/-- The errors of `receive_message`. -/
inductive ReceiveError (A : Type) where
  /-- `Failed to accept stream`. -/
  | accept (error : A)
  /-- `Empty message`. -/
  | emptyMessage
deriving DecidableEq

namespace AuthenticatedConnection

variable {A E : Type}

/-- Receive the next application message from the peer, on the stream that is
accepted. -/
def receiveMessage :
    Except A (ReadResults E) → Except (ReceiveError A) (List UInt8)
  | .error e => .error (.accept e)
  | .ok results =>
      if results.buffer.isEmpty then
        .error .emptyMessage
      else
        .ok results.buffer

/-- A message that is returned is the content of a complete stream. -/
def ReceivesComplete (A : Type) (results : ReadResults E) : Prop :=
  ∀ buf, receiveMessage (.ok results : Except A (ReadResults E)) = .ok buf →
    results.Complete ∧ buf = results.chunks.flatten

theorem receivesComplete_iff
    (A : Type) (results : ReadResults E) :
    ReceivesComplete A results ↔
      results.Complete ∨ results.chunks.flatten = [] := by
  simp only [ReceivesComplete, receiveMessage, ReadResults.buffer_eq]
  by_cases hempty : results.chunks.flatten = []
  · simp [hempty]
  · simp [hempty]

end AuthenticatedConnection

/-- The payloads that were fed to the state machine, in order. -/
def payloads : List Act → List (List UInt8)
  | [] => []
  | .handled _ (.dataReceived _ data) _ _ :: trace => data :: payloads trace
  | _ :: trace => payloads trace

theorem payloads_append
    (l l' : List Act) :
    payloads (l ++ l') = payloads l ++ payloads l' := by
  induction l with
  | nil => rfl
  | cons act l ih =>
      cases act with
      | handled s input o outputs =>
          cases input with
          | dataReceived id data => simp only [List.cons_append, payloads, ih]
          | _ => exact ih
      | _ => exact ih

/-- The input is not a payload. -/
def IsNoPayload (input : NetworkInput) : Prop :=
  ∀ id data, input ≠ .dataReceived id data

namespace Driver

variable {P : Platform} {C : CryptoProvider} {ε α : Type}

/-- The payloads that the driver has fed to its state machine. -/
def fed (d : Driver C) : List (List UInt8) :=
  payloads d.trace

theorem fed_record
    (act : Act) (d : Driver C) :
    (d.record act).fed = d.fed ++ payloads [act] :=
  payloads_append _ _

theorem fed_call
    (input : NetworkInput) (d : Driver C) :
    (call P input d).2.2.fed =
      d.fed ++ payloads [.handled d.machine.state input
        (d.machine.handle P input .empty).outcome
        (d.machine.handle P input .empty).outputs.toList] :=
  payloads_append _ _

theorem payloads_of_isNoPayload
    {input : NetworkInput} {s : Network.State}
    {o : Outcome Network.NetworkError Unit} {outputs : List NetworkOutput}
    (h : IsNoPayload input) :
    payloads [.handled s input o outputs] = [] := by
  cases input with
  | dataReceived id data => exact absurd rfl (h id data)
  | _ => rfl

theorem handle_fed
    (input : NetworkInput) (d : Driver C) :
    (handle P input d).2.fed = (call P input d).2.2.fed := by
  unfold handle
  rcases call P input d with ⟨o, outputs, d'⟩
  cases o <;> rfl

theorem keeps_fed_handle
    {input : NetworkInput}
    (h : IsNoPayload input) :
    Proc.Keeps fed (handle P input : Proc (Driver C) _ _) := by
  intro d
  rw [handle_fed, fed_call, payloads_of_isNoPayload h, List.append_nil]

theorem keeps_fed_handleAnyway
    {input : NetworkInput}
    (h : IsNoPayload input) :
    Proc.Keeps fed (handleAnyway P input : Proc (Driver C) ε _) := by
  intro d
  have hcall := fed_call (P := P) input d
  rw [payloads_of_isNoPayload h, List.append_nil] at hcall
  unfold handleAnyway
  revert hcall
  rcases call P input d with ⟨o, outputs, d'⟩
  intro hcall
  cases o with
  | panic => exact hcall
  | _ => exact hcall

theorem keeps_fed_execute
    (request : CryptoRequest) :
    Proc.Keeps fed (execute request : Proc (Driver C) _ _) := by
  intro d
  exact (fed_record _ _).trans (List.append_nil _)

theorem keeps_fed_write
    (data : List UInt8) :
    Proc.Keeps fed (write data : Proc (Driver C) ε Unit) := by
  intro d
  exact (fed_record _ _).trans (List.append_nil _)

theorem keeps_fed_wake
    (w : Wake) :
    Proc.Keeps fed (wake w : Proc (Driver C) ε Unit) := by
  intro d
  exact (fed_record _ _).trans (List.append_nil _)

/-- A payload is fed once, however the call ends. -/
theorem handle_fed_payload
    (data : List UInt8) (d : Driver C) :
    (handle P (.dataReceived 0 data) d).2.fed = d.fed ++ [data] := by
  rw [handle_fed, fed_call]
  rfl

end Driver

section Server

open Driver QuinnServer

variable {P : Platform} {C : CryptoProvider}

theorem isNoPayload_tick
    (t : UInt64) :
    IsNoPayload (.tick t) := by
  intro id data h
  cases h

theorem isNoPayload_cryptoCompleted
    (result : CryptoResult) :
    IsNoPayload (.cryptoCompleted result) := by
  intro id data h
  cases h

theorem QuinnServer.keeps_fed_sendMessage
    (msg : NetworkMessage) :
    Proc.Keeps fed (sendMessage P msg : Task C Unit) :=
  (Proc.keeps_ofOutcome _).mapErr.bind fun _ => keeps_fed_write _

theorem QuinnServer.keeps_fed_sendMessages
    (outputs : List NetworkOutput) :
    Proc.Keeps fed (sendMessages P outputs : Task C Unit) := by
  refine Proc.keeps_forEach (fun output => ?_) outputs
  cases output with
  | sendMessage msg => exact keeps_fed_sendMessage msg
  | _ => exact Proc.keeps_pure _

theorem QuinnServer.keeps_fed_handleCrypto
    (depth : Nat) (outputs : List NetworkOutput) :
    Proc.Keeps fed (handleCrypto P depth outputs : Task C _) := by
  induction depth generalizing outputs with
  | zero => exact Proc.keeps_abort
  | succ depth ih =>
      unfold handleCrypto
      cases firstRequest outputs with
      | none => exact Proc.keeps_pure _
      | some request =>
          exact (keeps_fed_sendMessages outputs).bind fun _ =>
            (keeps_fed_execute request).mapErr.bind fun result =>
              (keeps_fed_handle
                (isNoPayload_cryptoCompleted result)).mapErr.bind ih

theorem QuinnServer.keeps_fed_processOutput
    (output : NetworkOutput) :
    Proc.Keeps fed (processOutput P output : Task C Unit) := by
  cases output with
  | sendMessage msg => exact keeps_fed_sendMessage msg
  | event event =>
      cases event with
      | authenticated => exact Proc.keeps_pure _
      | authenticationFailed e => exact Proc.keeps_fail _
  | _ => exact Proc.keeps_pure _

/-- A payload that can be decoded for the log is fed once. -/
theorem QuinnServer.processPayload_fed
    {depth : Nat} {data : List UInt8} (d : Driver C)
    (h : NetworkMessage.decode P.cbor data ≠ .panic) :
    (processPayload P depth data d).2.fed = d.fed ++ [data] := by
  have hrest : ∀ outputs, Proc.Keeps fed (do
      let outputs ← handleCrypto P depth outputs
      Proc.forEach (processOutput P) outputs
      if outputs.contains .needsPoll then do
        let tickOutputs ← handleAnyway P (.tick 0)
        sendMessages P tickOutputs
      else
        pure () : Task C Unit) := by
    intro outputs
    refine (keeps_fed_handleCrypto depth outputs).bind (fun outputs => ?_)
    refine (Proc.keeps_forEach keeps_fed_processOutput outputs).bind
      (fun _ => ?_)
    split
    · exact (keeps_fed_handleAnyway (isNoPayload_tick 0)).bind
        keeps_fed_sendMessages
    · exact Proc.keeps_pure _
  unfold processPayload
  rw [Proc.bind_of_ok (logReceived_eq d h), Proc.keeps_after hrest]
  exact handle_fed_payload data d

end Server

section Client

open Driver QuinnClient

variable {P : Platform} {C : CryptoProvider}

theorem QuinnClient.keeps_fed_encode
    (msg : NetworkMessage) :
    Proc.Keeps fed (encode P msg : Task C _) :=
  (Proc.keeps_ofOutcome _).mapErr

theorem QuinnClient.keeps_fed_poll
    (n : Nat) :
    Proc.Keeps fed (poll P n : Task C Unit) := by
  induction n with
  | zero => exact Proc.keeps_pure _
  | succ n ih =>
      have hagain : ∀ needsAnother : Bool, Proc.Keeps fed
          (if needsAnother then poll P n else pure () : Task C Unit) := by
        intro needsAnother
        cases needsAnother with
        | true => exact ih
        | false => exact Proc.keeps_pure _
      refine (keeps_fed_handle (isNoPayload_tick 0)).mapErr.bind
        (fun tickOutputs => ?_)
      cases firstRequest tickOutputs with
      | none => exact (Proc.keeps_pure _).bind hagain
      | some request =>
          refine (keeps_fed_execute request).mapErr.bind (fun result => ?_)
          refine (keeps_fed_handle
            (isNoPayload_cryptoCompleted result)).mapErr.bind
            (fun outputs => ?_)
          refine (Proc.keeps_forEach (fun output => ?_) outputs).bind
            fun _ => (Proc.keeps_pure _).bind hagain
          cases output with
          | sendMessage msg =>
              intro d
              dsimp only
              split
              · exact (keeps_fed_encode msg).bind keeps_fed_write d
              · rfl
          | _ => exact Proc.keeps_pure _

theorem QuinnClient.keeps_fed_pendingActions
    (outputs : List NetworkOutput) :
    Proc.Keeps fed (pendingActions P outputs : Task C _) := by
  induction outputs with
  | nil => exact Proc.keeps_pure _
  | cons output outputs ih =>
      have haction : Proc.Keeps fed (pendingAction P output : Task C _) := by
        cases output with
        | sendMessage msg =>
            exact (keeps_fed_encode msg).bind fun _ => Proc.keeps_pure _
        | requestCrypto request => exact Proc.keeps_abort
        | _ => exact Proc.keeps_pure _
      exact haction.bind fun _ => ih.bind fun _ => Proc.keeps_pure _

theorem QuinnClient.keeps_fed_perform
    (action : PendingAction) :
    Proc.Keeps fed (perform action : Task C Unit) := by
  cases action with
  | sendBytes data =>
      intro d
      simp only [perform]
      split
      · exact keeps_fed_write data d
      · rfl
  | closeConnection =>
      intro d
      rfl
  | _ => exact Proc.keeps_pure _

/-- What `process_event` does with the outputs of a call. -/
def QuinnClient.processOutputs (P : Platform) (depth : Nat)
    (outputs : List NetworkOutput) : Task C Unit :=
  match firstRequest outputs with
  | some request => do
      let result ← execute request
      processEvent P depth (.cryptoCompleted result)
  | none =>
      if outputs.contains .needsPoll then
        poll P 10
      else do
        let actions ← pendingActions P outputs
        Proc.forEach perform actions

theorem QuinnClient.processEvent_succ
    (depth : Nat) (input : NetworkInput) :
    (processEvent P (depth + 1) input : Task C Unit) =
      handle P input >>= processOutputs P depth := by
  rfl

theorem QuinnClient.keeps_fed_processOutputs
    (depth : Nat) (outputs : List NetworkOutput) :
    Proc.Keeps fed (processOutputs P depth outputs : Task C Unit) := by
  -- the results of requests are processed at a smaller depth
  have hoffer : ∀ depth, (∀ result, Proc.Keeps fed
      (processEvent P depth (.cryptoCompleted result) : Task C Unit)) →
      ∀ outputs, Proc.Keeps fed (processOutputs P depth outputs : Task C Unit) := by
    intro depth hnext outputs
    unfold processOutputs
    cases firstRequest outputs with
    | some request => exact (keeps_fed_execute request).mapErr.bind hnext
    | none =>
        dsimp only
        split
        · exact keeps_fed_poll 10
        · exact (keeps_fed_pendingActions outputs).bind fun actions =>
            Proc.keeps_forEach keeps_fed_perform actions
  induction depth generalizing outputs with
  | zero => exact hoffer 0 (fun _ => Proc.keeps_abort) outputs
  | succ depth ih =>
      exact hoffer (depth + 1) (fun result =>
        (keeps_fed_handle (isNoPayload_cryptoCompleted result)).mapErr.bind ih)
        outputs

/-- A payload is fed once by the client. -/
theorem QuinnClient.processEvent_fed
    {depth : Nat} (hdepth : 0 < depth) (data : List UInt8) (d : Driver C) :
    (processEvent P depth (.dataReceived 0 data) d).2.fed =
      d.fed ++ [data] := by
  cases depth with
  | zero => omega
  | succ depth =>
      rw [processEvent_succ, Proc.keeps_after (keeps_fed_processOutputs depth)]
      exact handle_fed_payload data d

/-- Nothing else that the client processes feeds a payload. -/
theorem QuinnClient.keeps_fed_processEvent
    (depth : Nat) {input : NetworkInput}
    (h : IsNoPayload input) :
    Proc.Keeps fed (processEvent P depth input : Task C Unit) := by
  cases depth with
  | zero => exact Proc.keeps_abort
  | succ depth =>
      exact (keeps_fed_handle h).mapErr.bind (keeps_fed_processOutputs depth)

end Client

/-- What ends a wait of a loop, with the results of reading a stream. -/
inductive Arrival (E : Type) where
  | stream (results : ReadResults E)
  | tick
  | closed

namespace Arrival

variable {E : Type}

/-- The loops read a stream before they do anything else. -/
def wake : Arrival E → Wake
  | stream results => .stream results.buffer
  | tick => .tick
  | closed => .closed

/-- The content of a complete stream. -/
def content : Arrival E → Option (List UInt8)
  | stream results => results.content
  | _ => none

end Arrival

/-- The driver has fed some of the payloads, in their order. -/
def FedFrom {C : CryptoProvider} (d d' : Driver C)
    (contents : List (List UInt8)) : Prop :=
  ∃ new, d'.fed = d.fed ++ new ∧ new.Sublist contents

section Loops

open Driver

variable {P : Platform} {C : CryptoProvider} {E ε : Type}

theorem fedFrom_of_eq
    {d d' : Driver C} (contents : List (List UInt8))
    (h : d'.fed = d.fed) :
    FedFrom d d' contents :=
  ⟨[], by simpa using h, List.nil_sublist _⟩

/-- What both parts of a sequence feed. -/
theorem fedFrom_bind
    {α : Type} {p : Proc (Driver C) ε α} {k : α → Proc (Driver C) ε Unit}
    {d : Driver C} {l l' : List (List UInt8)}
    (hp : FedFrom d (p d).2 l)
    (hk : ∀ a d', FedFrom d' (k a d').2 l') :
    FedFrom d ((p >>= k) d).2 (l ++ l') := by
  obtain ⟨new, hnew, hsub⟩ := hp
  rw [Proc.bind_apply]
  rcases hrun : p d with ⟨o, d'⟩
  rw [hrun] at hnew
  cases o with
  | ok a =>
      obtain ⟨new', hnew', hsub'⟩ := hk a d'
      refine ⟨new ++ new', ?_, hsub.append hsub'⟩
      rw [hnew', hnew, List.append_assoc]
  | _ => exact ⟨new, hnew, hsub.trans (List.sublist_append_left _ _)⟩

/-- A loop whose rounds feed only the content of complete streams feeds only
such contents. -/
theorem fedFrom_loop
    {loop : List Wake → Proc (Driver C) ε Unit}
    (round : Wake → Proc (Driver C) ε Unit)
    (hnil : Proc.Keeps fed (loop []))
    (hcons : ∀ w ws d, (loop (w :: ws) d).2 = d ∨
      loop (w :: ws) d = (round w >>= fun _ => loop ws) d)
    {arrivals : List (Arrival E)}
    (hround : ∀ arrival ∈ arrivals, ∀ d,
      FedFrom d (round arrival.wake d).2 arrival.content.toList)
    (d : Driver C) :
    FedFrom d (loop (arrivals.map Arrival.wake) d).2
      (arrivals.filterMap Arrival.content) := by
  induction arrivals generalizing d with
  | nil => exact fedFrom_of_eq _ (hnil d)
  | cons arrival arrivals ih =>
      rcases hcons arrival.wake (arrivals.map Arrival.wake) d with hend | hgo
      · exact fedFrom_of_eq _ (congrArg fed hend)
      · rw [List.map_cons, hgo]
        have hlater : ∀ (_ : Unit) d', FedFrom d'
            (loop (arrivals.map Arrival.wake) d').2
            (arrivals.filterMap Arrival.content) := fun _ d' =>
          ih (fun a ha => hround a (List.mem_cons_of_mem _ ha)) d'
        have hboth := fedFrom_bind (hround arrival List.mem_cons_self d) hlater
        cases hcontent : arrival.content with
        | none => simpa [hcontent] using hboth
        | some data => simpa [hcontent] using hboth

/-- One round of the server's loop. -/
def QuinnServer.round (P : Platform) (depth : Nat) (w : Wake) :
    QuinnServer.Task C Unit := do
  wake w
  match w with
  | .stream data =>
      if data.isEmpty then pure () else processPayload P depth data
  | .closed => Proc.fail .disconnected
  | .tick => do
      let _ ← handleAnyway P (.tick 0)
      pure ()

theorem QuinnServer.driveAuthentication_cons
    {d : Driver C} {depth : Nat} (w : Wake) (ws : List Wake)
    (hwaiting : d.machine.isAuthenticated = false) :
    driveAuthentication P depth (w :: ws) d =
      (round P depth w >>= fun _ => driveAuthentication P depth ws) d := by
  conv_lhs => unfold driveAuthentication
  simp only [hwaiting, Bool.false_eq_true, if_false]
  unfold round
  rw [Proc.bind_assoc, Proc.bind_of_ok (wake_eq w d),
    Proc.bind_of_ok (wake_eq w d)]
  cases w with
  | stream data =>
      dsimp only
      cases hempty : data.isEmpty with
      | true => rfl
      | false => rfl
  | closed => rfl
  | tick => rw [Proc.bind_assoc]; rfl

/-- One round of the client's loop. -/
def QuinnClient.round (P : Platform) (depth : Nat) (w : Wake) :
    QuinnClient.Task C Unit := do
  wake w
  match w with
  | .stream data => do
      logReceived P data
      processEvent P depth (.dataReceived 0 data)
  | .closed => Proc.fail .connection
  | .tick => processEvent P depth (.tick 0)

theorem QuinnClient.runUntilAuthenticated_cons
    {d : Driver C} {depth : Nat} (w : Wake) (ws : List Wake)
    (hwaiting : d.machine.isAuthenticated = false) :
    runUntilAuthenticated P depth (w :: ws) d =
      (round P depth w >>= fun _ => runUntilAuthenticated P depth ws) d := by
  conv_lhs => unfold runUntilAuthenticated
  simp only [hwaiting, Bool.false_eq_true, if_false]
  unfold round
  rw [Proc.bind_assoc, Proc.bind_of_ok (wake_eq w d),
    Proc.bind_of_ok (wake_eq w d)]
  cases w with
  | stream data => rw [Proc.bind_assoc]
  | closed => rfl
  | tick => rfl

/-- The server does not feed this payload: it is empty, or the decoder for the
log panics. -/
def QuinnServer.Skips (M : Minicbor) (data : List UInt8) : Prop :=
  data = [] ∨ NetworkMessage.decode M data = .panic

/-- The client does not feed this payload: the decoder for the log panics. -/
def QuinnClient.Skips (M : Minicbor) (data : List UInt8) : Prop :=
  NetworkMessage.decode M data = .panic

/-- What the server feeds for a stream. -/
theorem QuinnServer.round_fed
    (depth : Nat) (data : List UInt8) (d : Driver C) :
    (Skips P.cbor data →
      ((round P depth (.stream data) : QuinnServer.Task C Unit) d).2.fed =
        d.fed) ∧
    (¬ Skips P.cbor data →
      ((round P depth (.stream data) : QuinnServer.Task C Unit) d).2.fed =
        d.fed ++ [data]) := by
  have hwake : (d.record (.woken (.stream data))).fed = d.fed :=
    (fed_record _ d).trans (List.append_nil _)
  rw [round, Proc.bind_of_ok (wake_eq _ d)]
  by_cases hempty : data = []
  · subst hempty
    exact ⟨fun _ => hwake, fun h => absurd (.inl rfl) h⟩
  · have hfull : data.isEmpty = false := by simpa using hempty
    simp only [hfull, Bool.false_eq_true, if_false]
    constructor
    · rintro (hnil | hpanic)
      · exact absurd hnil hempty
      · rw [processPayload, Proc.bind_of_panic (logReceived_panics _ hpanic)]
        exact hwake
    · intro hfeeds
      rw [processPayload_fed _ fun hpanic => hfeeds (.inr hpanic), hwake]

/-- What the client feeds for a stream. -/
theorem QuinnClient.round_fed
    {depth : Nat} (hdepth : 0 < depth) (data : List UInt8) (d : Driver C) :
    (Skips P.cbor data →
      ((round P depth (.stream data) : QuinnClient.Task C Unit) d).2.fed =
        d.fed) ∧
    (¬ Skips P.cbor data →
      ((round P depth (.stream data) : QuinnClient.Task C Unit) d).2.fed =
        d.fed ++ [data]) := by
  have hwake : (d.record (.woken (.stream data))).fed = d.fed :=
    (fed_record _ d).trans (List.append_nil _)
  rw [round, Proc.bind_of_ok (wake_eq _ d)]
  constructor
  · intro hpanic
    rw [Proc.bind_of_panic (logReceived_panics _ hpanic)]
    exact hwake
  · intro hfeeds
    rw [Proc.bind_of_ok (logReceived_eq _ hfeeds), processEvent_fed hdepth,
      hwake]

/-- Between two states of a driver, a payload is fed only if the stream is
complete, and then it is the content of the stream. -/
def FeedsComplete (results : ReadResults E) (d d' : Driver C) : Prop :=
  d'.fed ≠ d.fed →
    results.Complete ∧ d'.fed = d.fed ++ [results.chunks.flatten]

theorem feedsComplete_iff
    {results : ReadResults E} {d d' : Driver C} {skips : Prop}
    (hskips : skips → d'.fed = d.fed)
    (hfeeds : ¬ skips → d'.fed = d.fed ++ [results.chunks.flatten]) :
    FeedsComplete results d d' ↔ results.Complete ∨ skips := by
  by_cases h : skips
  · exact iff_of_true (fun hfed => absurd (hskips h) hfed) (.inr h)
  · simp [FeedsComplete, hfeeds h, h]

/-- A round that feeds only complete streams feeds the content of its own. -/
theorem FeedsComplete.fedFrom
    {results : ReadResults E} {d d' : Driver C}
    (h : FeedsComplete results d d') :
    FedFrom d d' results.content.toList := by
  by_cases hsame : d'.fed = d.fed
  · exact fedFrom_of_eq _ hsame
  · obtain ⟨hcomplete, hfed⟩ := h hsame
    have hcontent : results.content = some results.chunks.flatten :=
      ReadResults.content_eq_some_iff.mpr ⟨hcomplete, rfl⟩
    exact ⟨_, hfed, by simp [hcontent]⟩

theorem QuinnServer.round_feedsComplete_iff
    (P : Platform) (depth : Nat) (results : ReadResults E) (d : Driver C) :
    FeedsComplete results d
        ((round P depth (Arrival.stream results).wake :
          QuinnServer.Task C Unit) d).2 ↔
      results.Complete ∨ Skips P.cbor results.chunks.flatten := by
  rw [Arrival.wake, results.buffer_eq]
  have hfed := round_fed (P := P) depth results.chunks.flatten d
  exact feedsComplete_iff hfed.1 hfed.2

theorem QuinnClient.round_feedsComplete_iff
    (P : Platform) {depth : Nat} (hdepth : 0 < depth)
    (results : ReadResults E) (d : Driver C) :
    FeedsComplete results d
        ((round P depth (Arrival.stream results).wake :
          QuinnClient.Task C Unit) d).2 ↔
      results.Complete ∨ Skips P.cbor results.chunks.flatten := by
  rw [Arrival.wake, results.buffer_eq]
  have hfed := round_fed (P := P) hdepth results.chunks.flatten d
  exact feedsComplete_iff hfed.1 hfed.2

/-- A tick and the end of the connection feed nothing. -/
theorem QuinnServer.round_fedFrom
    {P : Platform} {depth : Nat} {arrival : Arrival E}
    (h : ∀ results, arrival = .stream results →
      results.Complete ∨ Skips P.cbor results.chunks.flatten)
    (d : Driver C) :
    FedFrom d ((round P depth arrival.wake : QuinnServer.Task C Unit) d).2
      arrival.content.toList := by
  cases arrival with
  | stream results =>
      exact ((round_feedsComplete_iff P depth results d).mpr
        (h results rfl)).fedFrom
  | tick =>
      exact fedFrom_of_eq _ ((keeps_fed_wake .tick).bind (fun _ =>
        (keeps_fed_handleAnyway (isNoPayload_tick 0)).bind fun _ =>
          Proc.keeps_pure _) d)
  | closed =>
      exact fedFrom_of_eq _ ((keeps_fed_wake .closed).bind
        (fun _ => Proc.keeps_fail _) d)

theorem QuinnClient.round_fedFrom
    {P : Platform} {depth : Nat} (hdepth : 0 < depth) {arrival : Arrival E}
    (h : ∀ results, arrival = .stream results →
      results.Complete ∨ Skips P.cbor results.chunks.flatten)
    (d : Driver C) :
    FedFrom d ((round P depth arrival.wake : QuinnClient.Task C Unit) d).2
      arrival.content.toList := by
  cases arrival with
  | stream results =>
      exact ((round_feedsComplete_iff P hdepth results d).mpr
        (h results rfl)).fedFrom
  | tick =>
      exact fedFrom_of_eq _ ((keeps_fed_wake .tick).bind
        (fun _ => keeps_fed_processEvent depth (isNoPayload_tick 0)) d)
  | closed =>
      exact fedFrom_of_eq _ ((keeps_fed_wake .closed).bind
        (fun _ => Proc.keeps_fail _) d)

theorem QuinnServer.keeps_fed_driveAuthentication_nil
    (depth : Nat) :
    Proc.Keeps fed (driveAuthentication P depth [] : QuinnServer.Task C Unit) := by
  intro d
  unfold driveAuthentication
  split <;> rfl

theorem QuinnClient.keeps_fed_runUntilAuthenticated_nil
    (depth : Nat) :
    Proc.Keeps fed
      (runUntilAuthenticated P depth [] : QuinnClient.Task C Unit) := by
  intro d
  unfold runUntilAuthenticated
  split <;> rfl

theorem QuinnServer.fed_driveAuthentication_one
    {depth : Nat} (w : Wake) {d : Driver C}
    (hwaiting : d.machine.isAuthenticated = false) :
    (driveAuthentication P depth [w] d).2.fed =
      ((round P depth w : QuinnServer.Task C Unit) d).2.fed := by
  rw [driveAuthentication_cons w [] hwaiting]
  exact Proc.keeps_after (fun _ => keeps_fed_driveAuthentication_nil depth) d

theorem QuinnClient.fed_runUntilAuthenticated_one
    {depth : Nat} (w : Wake) {d : Driver C}
    (hwaiting : d.machine.isAuthenticated = false) :
    (runUntilAuthenticated P depth [w] d).2.fed =
      ((round P depth w : QuinnClient.Task C Unit) d).2.fed := by
  rw [runUntilAuthenticated_cons w [] hwaiting]
  exact Proc.keeps_after (fun _ => keeps_fed_runUntilAuthenticated_nil depth) d

theorem QuinnServer.driveAuthentication_fedFrom
    {P : Platform} {depth : Nat} {arrivals : List (Arrival E)}
    (h : ∀ results, .stream results ∈ arrivals →
      results.Complete ∨ Skips P.cbor results.chunks.flatten)
    (d : Driver C) :
    FedFrom d (driveAuthentication P depth (arrivals.map Arrival.wake) d).2
      (arrivals.filterMap Arrival.content) := by
  refine fedFrom_loop (round P depth)
    (keeps_fed_driveAuthentication_nil depth) (fun w ws d => ?_) (fun arrival hmem d => ?_) d
  · cases hwaiting : d.machine.isAuthenticated with
    | true =>
        left
        unfold driveAuthentication
        simp [hwaiting]
    | false => exact .inr (driveAuthentication_cons w ws hwaiting)
  · exact round_fedFrom (fun results hstream => h results (hstream ▸ hmem)) d

theorem QuinnClient.runUntilAuthenticated_fedFrom
    {P : Platform} {depth : Nat} (hdepth : 0 < depth)
    {arrivals : List (Arrival E)}
    (h : ∀ results, .stream results ∈ arrivals →
      results.Complete ∨ Skips P.cbor results.chunks.flatten)
    (d : Driver C) :
    FedFrom d (runUntilAuthenticated P depth (arrivals.map Arrival.wake) d).2
      (arrivals.filterMap Arrival.content) := by
  refine fedFrom_loop (round P depth)
    (keeps_fed_runUntilAuthenticated_nil depth) (fun w ws d => ?_) (fun arrival hmem d => ?_) d
  · cases hwaiting : d.machine.isAuthenticated with
    | true =>
        left
        unfold runUntilAuthenticated
        simp [hwaiting]
    | false => exact .inr (runUntilAuthenticated_cons w ws hwaiting)
  · exact round_fedFrom hdepth (fun results hstream => h results (hstream ▸ hmem))
      d

end Loops

/-- When the content of a stream is handed on for complete streams only: as a
message, and by the two loops, in a wait that the stream ends and over a whole
run. -/
structure StreamsComplete (A E : Type) (P : Platform) (C : CryptoProvider)
    (depth : Nat) : Prop where
  message (results : ReadResults E) :
    AuthenticatedConnection.ReceivesComplete A results ↔
      results.Complete ∨ results.chunks.flatten = []
  server (results : ReadResults E) (d : Driver C)
    (hwaiting : d.machine.isAuthenticated = false) :
    FeedsComplete results d (QuinnServer.driveAuthentication P depth
        [(Arrival.stream results).wake] d).2 ↔
      results.Complete ∨ QuinnServer.Skips P.cbor results.chunks.flatten
  client (results : ReadResults E) (d : Driver C)
    (hwaiting : d.machine.isAuthenticated = false) :
    FeedsComplete results d (QuinnClient.runUntilAuthenticated P depth
        [(Arrival.stream results).wake] d).2 ↔
      results.Complete ∨ QuinnClient.Skips P.cbor results.chunks.flatten
  serverRun (arrivals : List (Arrival E)) (d : Driver C)
    (h : ∀ results, .stream results ∈ arrivals →
      results.Complete ∨ QuinnServer.Skips P.cbor results.chunks.flatten) :
    FedFrom d (QuinnServer.driveAuthentication P depth
        (arrivals.map Arrival.wake) d).2
      (arrivals.filterMap Arrival.content)
  clientRun (arrivals : List (Arrival E)) (d : Driver C)
    (h : ∀ results, .stream results ∈ arrivals →
      results.Complete ∨ QuinnClient.Skips P.cbor results.chunks.flatten) :
    FedFrom d (QuinnClient.runUntilAuthenticated P depth
        (arrivals.map Arrival.wake) d).2
      (arrivals.filterMap Arrival.content)

/-- Read errors are not noticed: what has been read of a stream is handed on as
if the stream were complete. -/
theorem streamsComplete
    (A E : Type) (P : Platform) (C : CryptoProvider)
    {depth : Nat} (hdepth : 0 < depth) :
    StreamsComplete A E P C depth where
  message := AuthenticatedConnection.receivesComplete_iff A
  server results d hwaiting := by
    rw [← QuinnServer.round_feedsComplete_iff P depth results d, FeedsComplete,
      QuinnServer.fed_driveAuthentication_one _ hwaiting]
    rfl
  client results d hwaiting := by
    rw [← QuinnClient.round_feedsComplete_iff P hdepth results d, FeedsComplete,
      QuinnClient.fed_runUntilAuthenticated_one _ hwaiting]
    rfl
  serverRun _ d h := QuinnServer.driveAuthentication_fedFrom h d
  clientRun _ d h := QuinnClient.runUntilAuthenticated_fedFrom hdepth h d

section Example

/-- A driver that waits. -/
def exampleWaiting : Driver exampleProvider :=
  ⟨.new .new, RustCryptoCryptoProvider.new, true, []⟩

/-- A stream of three chunks, one of them empty. -/
def exampleChunks : ReadResults Unit :=
  .chunk [67, 233] (.chunk [] (.chunk [161, 0, 128] .endOfStream))

/-- What is handed on of it is its content, and so it is when a tick and a
stream that is reset before its first chunk come in between. -/
theorem exampleChunks_complete :
    AuthenticatedConnection.ReceivesComplete Unit exampleChunks ∧
    FeedsComplete exampleChunks exampleWaiting
      (QuinnServer.driveAuthentication Network.examplePlatform 3
        [(Arrival.stream exampleChunks).wake] exampleWaiting).2 ∧
    FeedsComplete exampleChunks exampleWaiting
      (QuinnClient.runUntilAuthenticated Network.examplePlatform 3
        [(Arrival.stream exampleChunks).wake] exampleWaiting).2 ∧
    FedFrom exampleWaiting
      (QuinnServer.driveAuthentication Network.examplePlatform 3
        [(Arrival.stream (.failed ())).wake, .tick,
          (Arrival.stream exampleChunks).wake] exampleWaiting).2
      [[67, 233, 161, 0, 128]] := by
  have hcomplete := streamsComplete Unit Unit Network.examplePlatform
    exampleProvider (show 0 < 3 by decide)
  refine ⟨(hcomplete.message exampleChunks).mpr (.inl trivial),
    (hcomplete.server exampleChunks exampleWaiting rfl).mpr (.inl trivial),
    (hcomplete.client exampleChunks exampleWaiting rfl).mpr (.inl trivial), ?_⟩
  refine hcomplete.serverRun [.stream (.failed ()), .tick, .stream exampleChunks]
    exampleWaiting fun results hresults => ?_
  rcases List.mem_cons.mp hresults with hreset | hresults
  · cases hreset
    exact .inr (.inl rfl)
  · obtain rfl : results = exampleChunks := by simpa using hresults
    exact .inl trivial

/-- A stream that is reset after two chunks. -/
def exampleReset : ReadResults Unit :=
  .chunk [64, 105] (.chunk [1] (.failed ()))

/-- Its prefix is returned as a message, and both loops feed it. -/
theorem exampleReset_handedOn :
    ¬ AuthenticatedConnection.ReceivesComplete Unit exampleReset ∧
    ¬ FeedsComplete exampleReset exampleWaiting
      (QuinnServer.driveAuthentication Network.examplePlatform 3
        [(Arrival.stream exampleReset).wake] exampleWaiting).2 ∧
    ¬ FeedsComplete exampleReset exampleWaiting
      (QuinnClient.runUntilAuthenticated Network.examplePlatform 3
        [(Arrival.stream exampleReset).wake] exampleWaiting).2 := by
  have hreset : ¬ exampleReset.Complete := id
  have hparsed : NetworkMessage.decode .rfc8949 [64, 105, 1] ≠ .panic := by
    decide +kernel
  refine ⟨fun h => ?_, fun h => ?_, fun h => ?_⟩
  · exact hreset (h [64, 105, 1] rfl).1
  · rw [FeedsComplete, QuinnServer.fed_driveAuthentication_one _ rfl] at h
    rcases (QuinnServer.round_feedsComplete_iff _ _ _ _).mp h with
      hcomplete | hnil | hpanic
    · exact hreset hcomplete
    · cases hnil
    · exact hparsed hpanic
  · rw [FeedsComplete, QuinnClient.fed_runUntilAuthenticated_one _ rfl] at h
    rcases (QuinnClient.round_feedsComplete_iff _ (by decide) _ _).mp h with
      hcomplete | hpanic
    · exact hreset hcomplete
    · exact hparsed hpanic

end Example

end Quinn
end OpenScreen
