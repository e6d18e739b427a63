import Synvoid.Jail.Wire

/-! # The serve loop of a jail

    The loop reads a frame, decodes a request, and answers it: with an error if
    its id is not above all earlier ones, with an acknowledgement if it is a
    shutdown, and else with what the handler returns. It ends at the end of the
    stream, after a shutdown, and at the first frame that it cannot read or
    decode. It also ends, without an answer, if the handler returns something
    that does not fit a frame.

    A session is the list of the exchanges and the outcome (`Session`). One step
    of the loop is one constructor of it, and what holds of whole sessions is
    proved by induction over them.
-/

namespace Synvoid.Jail

open Synvoid.Framework Synvoid.Framework.Postcard

/-! ## Section 1: The loop -/

structure JailHandler (σ : Type) where
  handle : σ → JailOperation → JailResult × σ

inductive ServeOutcome where
  | cleanShutdown
  | connectionClosed
  | protocolFatal
  deriving DecidableEq

/-- A request that was decoded, the operation that the handler was called with,
    and the frame that was written. -/
structure Exchange where
  request : JailRequest
  called : Option JailOperation
  frame : Option Bytes

def duplicateId : JailError := .protocolViolation "duplicate or non-increasing request id"

/-- The bounds on outputs are checked again behind the handler. -/
def recheckOutput : JailResult → JailResult
  | .ok (.wasmResult result) =>
      if result.body.length > jailMaxInvokeOutputBytes then
        .err (JailError.oversized "handler output too large").toDto
      else .ok (.wasmResult result)
  | .ok (.yaraScanResult results) =>
      if results.length > jailMaxMatches then
        .err (JailError.oversized "handler returned too many matches").toDto
      else .ok (.yaraScanResult results)
  | result => result

section serve

variable {σ : Type} (requests : Serde JailRequest) (responses : Serde JailResponse)
  (handler : JailHandler σ)

/-- The answer to a request, and the state of the loop behind it or its outcome. -/
def exchange (lastId : UInt64) (s : σ) (req : JailRequest) :
    Exchange × Except ServeOutcome (UInt64 × σ) :=
  if req.id ≤ lastId then
    match encodeResponse responses (.new req.id (.err duplicateId.toDto)) with
    | .ok frame => (⟨req, none, some frame⟩, .ok (lastId, s))
    | .error _ => (⟨req, none, none⟩, .error .protocolFatal)
  else if req.op = .shutdown then
    match encodeResponse responses (.new req.id (.ok .shutdownAck)) with
    | .ok frame => (⟨req, none, some frame⟩, .error .cleanShutdown)
    | .error _ => (⟨req, none, none⟩, .error .cleanShutdown)
  else
    let (result, s) := handler.handle s req.op
    match encodeResponse responses (.new req.id (recheckOutput result)) with
    | .ok frame => (⟨req, some req.op, some frame⟩, .ok (req.id, s))
    | .error _ => (⟨req, some req.op, none⟩, .error .protocolFatal)

def serveLoop (lastId : UInt64) (s : σ) (source : Source) : List Exchange × ServeOutcome :=
  match h : readFrame source jailMaxFrameBytes with
  | (.ok .cleanEof, _) => ([], .connectionClosed)
  | (.error _, _) => ([], .protocolFatal)
  | (.ok (.frame payload), source') =>
      match decodeRequest requests payload with
      | .error _ => ([], .protocolFatal)
      | .ok req =>
          match exchange responses handler lastId s req with
          | (e, .error outcome) => ([e], outcome)
          | (e, .ok (lastId, s)) =>
              have := size_readFrame_lt h
              let (es, outcome) := serveLoop lastId s source'
              (e :: es, outcome)
termination_by source.size

def serveJailConnection (s : σ) (source : Source) : List Exchange × ServeOutcome :=
  serveLoop requests responses handler 0 s source

/-- The bytes that were written. -/
def written (es : List Exchange) : Bytes := (es.filterMap Exchange.frame).flatten

/-! ## Section 2: Sessions -/

/-- What a loop that has seen ids up to `lastId` can still do. -/
inductive Session : UInt64 → List Exchange → ServeOutcome → Prop where
  | closed (lastId : UInt64) : Session lastId [] .connectionClosed
  | fatal (lastId : UInt64) : Session lastId [] .protocolFatal
  | stale {lastId : UInt64} {req : JailRequest} {frame : Bytes} {es : List Exchange}
      {outcome : ServeOutcome} (hop : req.op.validate = .ok ()) (hid : req.id ≤ lastId)
      (hframe : encodeResponse responses (.new req.id (.err duplicateId.toDto)) = .ok frame)
      (hrest : Session lastId es outcome) : Session lastId (⟨req, none, some frame⟩ :: es) outcome
  | shutdown {lastId : UInt64} {req : JailRequest} {frame : Bytes} (hop : req.op = .shutdown)
      (hid : lastId < req.id)
      (hframe : encodeResponse responses (.new req.id (.ok .shutdownAck)) = .ok frame) :
      Session lastId [⟨req, none, some frame⟩] .cleanShutdown
  | handled {lastId : UInt64} {req : JailRequest} {frame : Bytes} {s : σ} {es : List Exchange}
      {outcome : ServeOutcome} (hop : req.op.validate = .ok ()) (hne : req.op ≠ .shutdown)
      (hid : lastId < req.id)
      (hframe : encodeResponse responses
        (.new req.id (recheckOutput (handler.handle s req.op).1)) = .ok frame)
      (hrest : Session req.id es outcome) :
      Session lastId (⟨req, some req.op, some frame⟩ :: es) outcome
  | unencodable {lastId : UInt64} {req : JailRequest} {s : σ} {e : JailError}
      (hop : req.op.validate = .ok ()) (hne : req.op ≠ .shutdown) (hid : lastId < req.id)
      (hframe : encodeResponse responses
        (.new req.id (recheckOutput (handler.handle s req.op).1)) = .error e) :
      Session lastId [⟨req, some req.op, none⟩] .protocolFatal

end serve

section sessions

variable {σ : Type} {requests : Serde JailRequest} {handler : JailHandler σ}

/-- The answers that the loop makes itself fit a frame. -/
theorem small_response_encodes {id : UInt64} (hid : id ≠ 0) {result : JailResult}
    (hout : checkOutput result = .ok ()) (hsize : (putResult result).length ≤ 1024) :
    ∃ frame, encodeResponse responseSerde (.new id result) = .ok frame := by
  have hlen : (putResponse (.new id result)).length ≤ jailMaxFrameBytes := by
    have hmagic : (putU32 jailMagic).length = 5 := by decide
    have hversion : (putU16 jailProtocolVersion).length = 1 := by decide
    have hidLen : varintLen id.toNat ≤ 10 :=
      varintLen_le (by decide) (Nat.lt_of_lt_of_le id.toNat_lt (by decide))
    simp only [putResponse, JailResponse.new, List.length_append, hmagic, hversion, length_putU64,
      jailMaxFrameBytes]
    omega
  exact ⟨_, encodeResponse_ok.mpr ⟨⟨rfl, rfl, hid⟩, hout, _, rfl, hlen, rfl⟩⟩

theorem duplicateId_encodes {id : UInt64} (hid : id ≠ 0) :
    ∃ frame, encodeResponse responseSerde (.new id (.err duplicateId.toDto)) = .ok frame :=
  small_response_encodes hid rfl (by decide)

theorem shutdownAck_encodes {id : UInt64} (hid : id ≠ 0) :
    ∃ frame, encodeResponse responseSerde (.new id (.ok .shutdownAck)) = .ok frame :=
  small_response_encodes hid rfl (by decide)

/-- One request: the session ends with its outcome, or goes on from its state. -/
theorem session_of_exchange {lastId : UInt64} {s : σ} {req : JailRequest} (hid : req.id ≠ 0)
    (hop : req.op.validate = .ok ()) {e : Exchange} {next : Except ServeOutcome (UInt64 × σ)}
    (h : exchange responseSerde handler lastId s req = (e, next)) :
    (∀ outcome, next = .error outcome → Session responseSerde handler lastId [e] outcome) ∧
      ∀ lastId' s', next = .ok (lastId', s') → ∀ es outcome,
        Session responseSerde handler lastId' es outcome →
          Session responseSerde handler lastId (e :: es) outcome := by
  unfold exchange at h
  split_ifs at h with hstale hshutdown
  · obtain ⟨frame, hframe⟩ := duplicateId_encodes hid
    rw [hframe] at h
    obtain ⟨rfl, rfl⟩ := Prod.mk.inj h
    refine ⟨fun outcome hnext => (by cases hnext), ?_⟩
    intro lastId' s' hnext es outcome hrest
    cases hnext
    exact .stale hop hstale hframe hrest
  · obtain ⟨frame, hframe⟩ := shutdownAck_encodes hid
    rw [hframe] at h
    obtain ⟨rfl, rfl⟩ := Prod.mk.inj h
    refine ⟨?_, fun lastId' s' hnext => (by cases hnext)⟩
    intro outcome hnext
    cases hnext
    exact .shutdown hshutdown (UInt64.not_le.mp hstale) hframe
  · simp only at h
    generalize hencode : encodeResponse responseSerde _ = encoded at h
    cases encoded with
    | ok frame =>
      obtain ⟨rfl, rfl⟩ := Prod.mk.inj h
      refine ⟨fun outcome hnext => (by cases hnext), ?_⟩
      intro lastId' s' hnext es outcome hrest
      cases hnext
      exact .handled hop hshutdown (UInt64.not_le.mp hstale) hencode hrest
    | error error =>
      obtain ⟨rfl, rfl⟩ := Prod.mk.inj h
      refine ⟨?_, fun lastId' s' hnext => (by cases hnext)⟩
      intro outcome hnext
      cases hnext
      exact .unencodable hop hshutdown (UInt64.not_le.mp hstale) hencode

/-- Every run of the loop is a session. -/
theorem serveLoop_session (lastId : UInt64) (s : σ) (source : Source) :
    Session responseSerde handler lastId
      (serveLoop requests responseSerde handler lastId s source).1
      (serveLoop requests responseSerde handler lastId s source).2 := by
  fun_induction serveLoop requests responseSerde handler lastId s source with
  | case1 => exact .closed _
  | case2 => exact .fatal _
  | case3 => exact .fatal _
  | case4 lastId s source payload source' hread req hdecode e outcome hexchange =>
    obtain ⟨-, ⟨-, -, hid⟩, hop⟩ := decodeRequest_ok.mp hdecode
    exact (session_of_exchange hid hop hexchange).1 outcome rfl
  | case5 lastId s source payload source' hread req hdecode e lastId' s' hexchange hlt es
    outcome hrun ih =>
    obtain ⟨-, ⟨-, -, hid⟩, hop⟩ := decodeRequest_ok.mp hdecode
    rw [hrun] at ih
    exact (session_of_exchange hid hop hexchange).2 lastId' s' rfl es outcome ih

/-! ## Section 3: What is written -/

/-- Reading the bytes frame by frame gives the responses and then the end of the
    stream, in whatever pieces the bytes arrive. -/
def ReadsResponses (bytes : Bytes) : List JailResponse → Prop
  | [] => ∀ source : Source, source.Clean → source.bytes = bytes →
      (readFrame source jailMaxFrameBytes).1 = .ok .cleanEof
  | response :: responses => ∃ rest, ReadsResponses rest responses ∧
      ∀ source : Source, source.Clean → source.bytes = bytes → ∃ payload source',
        readFrame source jailMaxFrameBytes = (.ok (.frame payload), source') ∧
          source'.Clean ∧ source'.bytes = rest ∧
          decodeResponse responseSerde payload = .ok response

theorem readsResponses_nil : ReadsResponses [] [] := by
  intro source hclean hbytes
  obtain rfl : source = [] := by
    cases source with
    | nil => rfl
    | cons event source =>
      cases event with
      | data first rest => simp at hbytes
      | err e => exact (hclean e (List.mem_cons_self ..)).elim
  rw [readFrame, readPrefix]
  rfl

theorem readsResponses_cons {response : JailResponse} {frame : Bytes}
    (h : encodeResponse responseSerde response = .ok frame) {rest : Bytes}
    {responses : List JailResponse} (hrest : ReadsResponses rest responses) :
    ReadsResponses (frame ++ rest) (response :: responses) := by
  obtain ⟨⟨hmagic, hversion, hid⟩, -, payload, hserde, hlen, rfl⟩ := encodeResponse_ok.mp h
  refine ⟨rest, hrest, ?_⟩
  intro source hclean hbytes
  have hne : payload ≠ [] := by
    obtain rfl : putResponse response = payload := Except.ok.inj hserde
    intro hnil
    have hlength := congrArg List.length hnil
    simp only [putResponse, List.length_append, length_putU32, varintLen,
      List.length_nil] at hlength
    omega
  obtain ⟨source', hread, hclean', hrest'⟩ :=
    readFrame_frameOf hne (Nat.le_refl _) hlen hclean hbytes
  refine ⟨payload, source', hread, hclean', hrest', ?_⟩
  exact decodeResponse_ok (responseSerde_roundTrips _ _ hserde hlen) hmagic hversion hid

/-- All requests are answered, or all but the last: the handler was called with
    that one, and what it returned does not fit a frame. -/
def Answered (handler : JailHandler σ) (es : List Exchange) (outcome : ServeOutcome)
    (responses : List JailResponse) : Prop :=
  responses.map (·.id) = es.map (·.request.id) ∨
    ∃ answered e, es = answered ++ [e] ∧ responses.map (·.id) = answered.map (·.request.id) ∧
      e.frame = none ∧ e.called = some e.request.op ∧ outcome = .protocolFatal ∧
      ∃ s error, encodeResponse responseSerde (.new e.request.id
        (recheckOutput (handler.handle s e.request.op).1)) = .error error

theorem answered_cons {e : Exchange} {es : List Exchange} {outcome : ServeOutcome}
    {response : JailResponse} {responses : List JailResponse} (hid : response.id = e.request.id)
    (h : Answered handler es outcome responses) :
    Answered handler (e :: es) outcome (response :: responses) := by
  rcases h with hall | ⟨answered, last, rfl, hids, hlast⟩
  · exact Or.inl (by simp [hid, hall])
  · exact Or.inr ⟨e :: answered, last, rfl, by simp [hid, hids], hlast⟩

theorem written_cons (req : JailRequest) (called : Option JailOperation) (frame : Bytes)
    (es : List Exchange) : written (⟨req, called, some frame⟩ :: es) = frame ++ written es := by
  simp [written]

theorem session_written {lastId : UInt64} {es : List Exchange} {outcome : ServeOutcome}
    (h : Session responseSerde handler lastId es outcome) :
    ∃ responses, ReadsResponses (written es) responses ∧ Answered handler es outcome responses := by
  induction h with
  | closed lastId => exact ⟨[], readsResponses_nil, Or.inl rfl⟩
  | fatal lastId => exact ⟨[], readsResponses_nil, Or.inl rfl⟩
  | stale hop hid hframe hrest ih =>
    obtain ⟨responses, hreads, hanswered⟩ := ih
    have hreads' := readsResponses_cons hframe hreads
    rw [← written_cons] at hreads'
    exact ⟨_, hreads', answered_cons rfl hanswered⟩
  | shutdown hop hid hframe =>
    have hreads := readsResponses_cons hframe readsResponses_nil
    rw [List.append_nil] at hreads
    exact ⟨_, by simpa [written] using hreads, Or.inl rfl⟩
  | handled hop hne hid hframe hrest ih =>
    obtain ⟨responses, hreads, hanswered⟩ := ih
    have hreads' := readsResponses_cons hframe hreads
    rw [← written_cons] at hreads'
    exact ⟨_, hreads', answered_cons rfl hanswered⟩
  | unencodable hop hne hid hframe =>
    exact ⟨[], readsResponses_nil, Or.inr ⟨[], _, rfl, rfl, rfl, rfl, rfl, _, _, hframe⟩⟩

/-! ## Section 4: When the handler is called -/

/-- The id is above `lastId` and above all earlier ids. -/
def Fresh (lastId : UInt64) (earlier : List Exchange) (e : Exchange) : Prop :=
  lastId < e.request.id ∧ ∀ e' ∈ earlier, e'.request.id < e.request.id

theorem fresh_cons_of_le {lastId : UInt64} {first e : Exchange} {earlier : List Exchange}
    (h : first.request.id ≤ lastId) :
    Fresh lastId (first :: earlier) e ↔ Fresh lastId earlier e := by
  simp only [Fresh, List.forall_mem_cons]
  constructor
  · exact fun hfresh => ⟨hfresh.1, hfresh.2.2⟩
  · exact fun hfresh => ⟨hfresh.1, UInt64.lt_of_le_of_lt h hfresh.1, hfresh.2⟩

theorem fresh_cons_of_lt {lastId : UInt64} {first e : Exchange} {earlier : List Exchange}
    (h : lastId < first.request.id) :
    Fresh lastId (first :: earlier) e ↔ Fresh first.request.id earlier e := by
  simp only [Fresh, List.forall_mem_cons]
  constructor
  · exact fun hfresh => ⟨hfresh.2.1, hfresh.2.2⟩
  · exact fun hfresh => ⟨UInt64.lt_trans h hfresh.1, hfresh.1, hfresh.2⟩

/-- The handler is called exactly with the fresh requests that are no shutdown.
    A fresh shutdown is acknowledged, and it is the last request. -/
structure Dispatched (lastId : UInt64) (outcome : ServeOutcome) (earlier : List Exchange)
    (e : Exchange) (later : List Exchange) : Prop where
  valid : e.request.op.validate = .ok ()
  called : e.called.isSome ↔ Fresh lastId earlier e ∧ e.request.op ≠ .shutdown
  called_op : ∀ op, e.called = some op → op = e.request.op
  shutdown : Fresh lastId earlier e → e.request.op = .shutdown →
    later = [] ∧ outcome = .cleanShutdown ∧
      ∃ frame, e.frame = some frame ∧
        encodeResponse responseSerde (.new e.request.id (.ok .shutdownAck)) = .ok frame

/-- What was dispatched behind a request that the session goes on from. -/
theorem Dispatched.cons {lastId lastId' : UInt64} {outcome : ServeOutcome} {first e : Exchange}
    {earlier later : List Exchange}
    (hfresh : Fresh lastId (first :: earlier) e ↔ Fresh lastId' earlier e)
    (h : Dispatched lastId' outcome earlier e later) :
    Dispatched lastId outcome (first :: earlier) e later where
  valid := h.valid
  called := by rw [hfresh]; exact h.called
  called_op := h.called_op
  shutdown := fun hf => h.shutdown (hfresh.mp hf)

/-- The last request of a session. -/
theorem eq_of_singleton_split {α : Type} {a b : α} {front back : List α}
    (h : [a] = front ++ b :: back) : front = [] ∧ b = a ∧ back = [] := by
  cases front with
  | nil =>
    obtain ⟨rfl, rfl⟩ := List.cons.inj h
    exact ⟨rfl, rfl, rfl⟩
  | cons c front => simp at h

theorem session_dispatched {lastId : UInt64} {es : List Exchange} {outcome : ServeOutcome}
    (h : Session responseSerde handler lastId es outcome) {earlier : List Exchange} {e : Exchange}
    {later : List Exchange} (hsplit : es = earlier ++ e :: later) :
    Dispatched lastId outcome earlier e later := by
  induction h generalizing earlier with
  | closed lastId => simp at hsplit
  | fatal lastId => simp at hsplit
  | @stale lastId req frame es outcome hop hid hframe hrest ih =>
    cases earlier with
    | nil =>
      obtain ⟨rfl, rfl⟩ := List.cons.inj hsplit
      have hnot : ¬ Fresh lastId [] ⟨req, none, some frame⟩ := fun hf => UInt64.not_le.mpr hf.1 hid
      exact ⟨hop, by simp [hnot], fun _ hcalled => (by cases hcalled), fun hf => absurd hf hnot⟩
    | cons first earlier =>
      obtain ⟨rfl, hrest⟩ := List.cons.inj hsplit
      exact (ih hrest).cons (fresh_cons_of_le hid)
  | @shutdown lastId req frame hop hid hframe =>
    obtain ⟨rfl, rfl, rfl⟩ := eq_of_singleton_split hsplit
    refine ⟨?_, by simp [hop], fun _ hcalled => (by cases hcalled), ?_⟩
    · simp only [hop]
      rfl
    · exact fun _ _ => ⟨rfl, rfl, frame, rfl, hframe⟩
  | @handled lastId req frame s es outcome hop hne hid hframe hrest ih =>
    cases earlier with
    | nil =>
      obtain ⟨rfl, rfl⟩ := List.cons.inj hsplit
      have hfresh : Fresh lastId [] ⟨req, some req.op, some frame⟩ := ⟨hid, by simp⟩
      refine ⟨hop, by simp [hfresh, hne], ?_, fun _ hop' => absurd hop' hne⟩
      exact fun op hcalled => (Option.some.inj hcalled).symm
    | cons first earlier =>
      obtain ⟨rfl, hrest⟩ := List.cons.inj hsplit
      exact (ih hrest).cons (fresh_cons_of_lt hid)
  | @unencodable lastId req s error hop hne hid hframe =>
    obtain ⟨rfl, rfl, rfl⟩ := eq_of_singleton_split hsplit
    have hfresh : Fresh lastId [] ⟨req, some req.op, none⟩ := ⟨hid, by simp⟩
    refine ⟨hop, by simp [hfresh, hne], ?_, fun _ hop' => absurd hop' hne⟩
    exact fun op hcalled => (Option.some.inj hcalled).symm

/-- **The discipline of the loop**, for every stream, decoder of requests and
    handler. What is written is a list of complete frames that are read back as
    responses, one for each request that was decoded and with its id; only a
    last request can go without, if what the handler returned for it does not
    fit a frame. The handler is called exactly with the requests whose id is
    above all earlier ones and that are no shutdown. Nothing is written behind
    the acknowledgement of such a shutdown. -/
theorem serve_disciplined (requests : Serde JailRequest) (handler : JailHandler σ) (s : σ)
    (source : Source) (es : List Exchange) (outcome : ServeOutcome)
    (hserve : serveJailConnection requests responseSerde handler s source = (es, outcome)) :
    (∃ responses, ReadsResponses (written es) responses ∧ Answered handler es outcome responses) ∧
      ∀ earlier e later, es = earlier ++ e :: later → Dispatched 0 outcome earlier e later := by
  have hsession : Session responseSerde handler 0 es outcome := by
    have hloop : Session responseSerde handler 0
        (serveLoop requests responseSerde handler 0 s source).1 _ := serveLoop_session 0 s source
    rw [serveJailConnection] at hserve
    rwa [hserve] at hloop
  exact ⟨session_written hsession, fun _ _ _ hsplit => session_dispatched hsession hsplit⟩

/-! ## Section 5: Two handlers -/

/-- The loop at the end of the stream. -/
theorem serveLoop_end (lastId : UInt64) (s : σ) {source : Source} (hclean : source.Clean)
    (hbytes : source.bytes = []) :
    serveLoop requests responseSerde handler lastId s source = ([], .connectionClosed) := by
  have hend := readsResponses_nil source hclean hbytes
  rw [serveLoop]
  split
  · rfl
  · next hread => rw [hread] at hend; cases hend
  · next hread => rw [hread] at hend; cases hend

/-- The loop before a request that can be decoded. -/
theorem serveLoop_request (handler : JailHandler σ) (lastId : UInt64) (s : σ) {req : JailRequest}
    {frame rest : Bytes}
    (hframe : encodeRequest requestSerde req = .ok frame) {source : Source} (hclean : source.Clean)
    (hbytes : source.bytes = frame ++ rest) :
    ∃ source', source'.Clean ∧ source'.bytes = rest ∧
      serveLoop requestSerde responseSerde handler lastId s source =
        match exchange responseSerde handler lastId s req with
        | (e, .error outcome) => ([e], outcome)
        | (e, .ok (lastId, s)) =>
            (e :: (serveLoop requestSerde responseSerde handler lastId s source').1,
              (serveLoop requestSerde responseSerde handler lastId s source').2) := by
  obtain ⟨henvelope, hop, payload, hserde, hlen, rfl⟩ := encodeRequest_ok.mp hframe
  have hdecode : decodeRequest requestSerde payload = .ok req :=
    decodeRequest_ok.mpr ⟨requestSerde_roundTrips _ _ hserde hlen, henvelope, hop⟩
  have hne : payload ≠ [] := by
    rintro rfl
    have hempty : ∃ e, decodeRequest requestSerde [] = .error e := ⟨_, rfl⟩
    obtain ⟨e, hempty⟩ := hempty
    rw [hempty] at hdecode
    cases hdecode
  obtain ⟨source', hread, hclean', hrest⟩ :=
    readFrame_frameOf hne (Nat.le_refl _) hlen hclean hbytes
  refine ⟨source', hclean', hrest, ?_⟩
  rw [serveLoop]
  split
  · next hread' => rw [hread] at hread'; cases hread'
  · next hread' => rw [hread] at hread'; cases hread'
  · next payload' source'' hread' =>
    rw [hread] at hread'
    obtain ⟨rfl, rfl⟩ : payload = payload' ∧ source' = source'' := by simpa using hread'
    simp only [hdecode]

end sessions

def pingRequest (id : UInt64) : JailRequest := .new id .ping

theorem ping_encodes {id : UInt64} (hid : id ≠ 0) :
    ∃ frame, encodeRequest requestSerde (pingRequest id) = .ok frame := by
  have hlen : (putRequest (pingRequest id)).length ≤ jailMaxFrameBytes := by
    have hmagic : (putU32 jailMagic).length = 5 := by decide
    have hversion : (putU16 jailProtocolVersion).length = 1 := by decide
    have hidLen : varintLen id.toNat ≤ 10 :=
      varintLen_le (by decide) (Nat.lt_of_lt_of_le id.toNat_lt (by decide))
    have hop : (putOperation .ping).length = 1 := by decide
    simp only [putRequest, pingRequest, JailRequest.new, List.length_append, hmagic, hversion,
      length_putU64, hop, jailMaxFrameBytes]
    omega
  exact ⟨_, encodeRequest_ok.mpr ⟨⟨rfl, rfl, hid⟩, rfl, _, rfl, hlen, rfl⟩⟩

section pings
variable {σ : Type} {handler : JailHandler σ} {lastId id : UInt64} {s : σ}

theorem exchange_ping (hid : lastId < id) :
    exchange responseSerde handler lastId s (pingRequest id) =
    match encodeResponse responseSerde (.new id (recheckOutput (handler.handle s .ping).1)) with
    | .ok frame => (⟨pingRequest id, some .ping, some frame⟩, .ok (id, (handler.handle s .ping).2))
    | .error _ => (⟨pingRequest id, some .ping, none⟩, .error .protocolFatal) := by
  have hstale : ¬ (pingRequest id).id ≤ lastId := UInt64.not_le.mpr hid
  have hop : ¬ (pingRequest id).op = .shutdown := JailOperation.noConfusion
  rw [exchange, if_neg hstale, if_neg hop]
  rfl

end pings

/-- A handler that acknowledges a shutdown for every operation. -/
def ackHandler : JailHandler Unit := ⟨fun s _ => (.ok .shutdownAck, s)⟩

/-- The requests `Ping` with the ids 1 and 2. -/
theorem serve_two_pings : ∃ source frame₁ frame₂,
    encodeResponse responseSerde (.new 1 (.ok .shutdownAck)) = .ok frame₁ ∧
      encodeResponse responseSerde (.new 2 (.ok .shutdownAck)) = .ok frame₂ ∧
      serveJailConnection requestSerde responseSerde ackHandler () source =
        ([⟨pingRequest 1, some .ping, some frame₁⟩, ⟨pingRequest 2, some .ping, some frame₂⟩],
          .connectionClosed) := by
  have hid₁ : (1 : UInt64) ≠ 0 := by decide
  have hid₂ : (2 : UInt64) ≠ 0 := by decide
  obtain ⟨ping₁, hping₁⟩ := ping_encodes hid₁
  obtain ⟨ping₂, hping₂⟩ := ping_encodes hid₂
  obtain ⟨ack₁, hack₁⟩ := shutdownAck_encodes hid₁
  obtain ⟨ack₂, hack₂⟩ := shutdownAck_encodes hid₂
  obtain ⟨source₁, hclean₁, hbytes₁, hserve₁⟩ := serveLoop_request ackHandler 0 ()
    hping₁ (Source.clean_ofBytes _) (Source.bytes_ofBytes (ping₁ ++ ping₂))
  rw [← List.append_nil ping₂] at hbytes₁
  obtain ⟨source₂, hclean₂, hbytes₂, hserve₂⟩ := serveLoop_request ackHandler 1 ()
    hping₂ hclean₁ hbytes₁
  have hres₁ : encodeResponse responseSerde
      (.new 1 (recheckOutput (ackHandler.handle () .ping).1)) = .ok ack₁ := hack₁
  have hres₂ : encodeResponse responseSerde
      (.new 2 (recheckOutput (ackHandler.handle () .ping).1)) = .ok ack₂ := hack₂
  have hlt₁ : (0 : UInt64) < 1 := by decide
  have hlt₂ : (1 : UInt64) < 2 := by decide
  simp only [exchange_ping hlt₂, hres₂, serveLoop_end 2 _ hclean₂ hbytes₂] at hserve₂
  simp only [exchange_ping hlt₁, hres₁, hserve₂] at hserve₁
  exact ⟨_, ack₁, ack₂, hack₁, hack₂, hserve₁⟩

/-- A handler that answers with one header of `n` bytes. -/
def headerHandler (n : Nat) : JailHandler Unit :=
  ⟨fun s _ => (.ok (.wasmResult ⟨200, [(List.replicate n 'a', [])], []⟩), s)⟩

theorem byteLen_replicate (n : Nat) : byteLen (List.replicate n 'a') = n := by
  induction n with
  | zero => rfl
  | succ n ih =>
    rw [List.replicate_succ, byteLen_cons, ih, Nat.add_comm]
    rfl

theorem header_does_not_encode {n : Nat} (hn : jailMaxFrameBytes ≤ n) (id : UInt64) :
    ∃ e, encodeResponse responseSerde
      (.new id (recheckOutput ((headerHandler n).handle () .ping).1)) = .error e := by
  generalize hencode : encodeResponse responseSerde _ = encoded
  cases encoded with
  | error e => exact ⟨e, rfl⟩
  | ok frame =>
    exfalso
    obtain ⟨-, -, payload, hserde, hlen, -⟩ := encodeResponse_ok.mp hencode
    obtain rfl : putResponse (.new id (.ok (.wasmResult
      ⟨200, [(List.replicate n 'a', [])], []⟩))) = payload := Except.ok.inj hserde
    have hmagic : (putU32 jailMagic).length = 5 := by decide
    have hheader : n ≤ (putStr (List.replicate n 'a')).length := by
      rw [putStr, putBytes, List.length_append, length_utf8, byteLen_replicate]
      exact Nat.le_add_left _ _
    simp only [putResponse, JailResponse.new, putResult, putOutput, putWasmResult,
      putHeaders, putSeq,
      putPair, List.flatMap_cons, List.length_append, hmagic] at hlen
    omega

/-- **An acknowledgement need not be the last response, and a request need not
    have one**: the handler may return `ShutdownAck` for a `Ping`, and it may
    return headers that fit no frame. -/
theorem ping_acknowledged_and_unanswered :
    (∃ source frame₁ frame₂,
      encodeResponse responseSerde (.new 1 (.ok .shutdownAck)) = .ok frame₁ ∧ frame₂ ≠ [] ∧
      (serveJailConnection requestSerde responseSerde ackHandler () source).1.map Exchange.frame =
        [some frame₁, some frame₂]) ∧
    ∃ source,
      (serveJailConnection requestSerde responseSerde (headerHandler 8388608) () source).1.map
      (fun e => (e.request.id, e.frame)) = [(1, none)] := by
  refine ⟨?_, ?_⟩
  · obtain ⟨source, frame₁, frame₂, hframe₁, hframe₂, hserve⟩ := serve_two_pings
    refine ⟨source, frame₁, frame₂, hframe₁, ?_, by rw [hserve]; rfl⟩
    obtain ⟨-, -, payload, -, -, rfl⟩ := encodeResponse_ok.mp hframe₂
    intro hnil
    have := congrArg List.length hnil
    simp [frameOf] at this
  · have hid : (1 : UInt64) ≠ 0 := by decide
    obtain ⟨ping, hping⟩ := ping_encodes hid
    have hbytes : (Source.ofBytes ping).bytes = ping ++ [] := by simp
    obtain ⟨source', -, -, hserve⟩ := serveLoop_request (headerHandler 8388608) 0 ()
      hping (Source.clean_ofBytes _) hbytes
    obtain ⟨e, herror⟩ := header_does_not_encode (n := 8388608) (by decide) 1
    have hlt : (0 : UInt64) < 1 := by decide
    simp only [exchange_ping hlt, herror] at hserve
    exact ⟨_, congrArg (fun run => run.1.map fun e => (e.request.id, e.frame)) hserve⟩

/-- The two responses of a run are read back. -/
theorem two_pings_disciplined : ∃ source es, es.length = 2 ∧
    serveJailConnection requestSerde responseSerde ackHandler () source = (es, .connectionClosed) ∧
      ∃ responses, ReadsResponses (written es) responses := by
  obtain ⟨source, frame₁, frame₂, -, -, hserve⟩ := serve_two_pings
  obtain ⟨⟨responses, hreads, -⟩, -⟩ :=
    serve_disciplined requestSerde ackHandler () source _ _ hserve
  exact ⟨source, _, rfl, hserve, responses, hreads⟩

end Synvoid.Jail
