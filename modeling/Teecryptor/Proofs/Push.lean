import Teecryptor.Push
import Teecryptor.Proofs.OtlpSplit

/-!
# What an export delivers

The pieces of an export go out one after the other, and the first that is not accepted is the
last. So what the API accepted is a first stretch of the export's rows, all of them where the
exporter is told of a success, and nothing is sent without the credential of this very run.
-/

namespace Teecryptor.Otlp

open Interact Interact.Prog Rust

variable {T : Types} {ε : Type} {tr tr' : Trace pushSig}

/-! ## What a trace says -/

/-- The requests that went to the API. -/
def posted (tr : Trace pushSig) : List PushRequest :=
  tr.filterMap fun e => match e with
    | ⟨.execute request, _⟩ => some request
    | _ => none

/-- The requests that the API accepted. -/
def accepted (tr : Trace pushSig) : List PushRequest :=
  tr.filterMap fun e => match e with
    | ⟨.execute request, .response resp⟩ => if resp.isSuccess then some request else none
    | _ => none

/-- The rejections that were logged. -/
def rejections (tr : Trace pushSig) : List (ℕ × List UInt8) :=
  tr.filterMap fun e => match e with
    | ⟨.logRejected status body, _⟩ => some (status, body)
    | _ => none

theorem posted_append : posted (tr ++ tr') = posted tr ++ posted tr' := List.filterMap_append

theorem accepted_append : accepted (tr ++ tr') = accepted tr ++ accepted tr' :=
  List.filterMap_append

theorem rejections_append : rejections (tr ++ tr') = rejections tr ++ rejections tr' :=
  List.filterMap_append

/-- The metadata server granted the token. -/
def Granted (tokenOf : String → Option String) (client : MetadataClient) (tr : Trace pushSig)
    (token : String) : Prop :=
  ∃ status body, (⟨.get (client.base ++ "/instance/service-accounts/default/token"),
      .response status (some body)⟩ : Event pushSig) ∈ tr
    ∧ ¬(400 ≤ status ∧ status < 600) ∧ tokenOf body = some token

variable {tokenOf : String → Option String} {isHeaderValue isUrl : String → Bool}
  {client : MetadataClient} {request parts : PushRequest}

/-! ## The credential -/

theorem run_pushCallBind {α : Type} {o : PushOp} {f : o.Ans → Push ε α}
    {r : Except (Abort (HttpError ε)) α} (h : Run (pushCall o >>= f).run tr r) :
    ∃ x tr', tr = ⟨o, x⟩ :: tr' ∧ Run (f x).run tr' r := by
  obtain ⟨tr₁, tr₂, x, rfl, h₁, h₂⟩ := run_liftBind.1 h
  obtain rfl := run_call.1 h₁
  exact ⟨x, tr₂, rfl, h₂⟩

/-- An exchange with the metadata server. -/
theorem run_get {path : String} {r : Except (Abort (HttpError ε)) (Option String)}
    (h : Run (client.get path : Push ε (Option String)).run tr r) :
    ∃ reply, tr = [⟨.get (client.base ++ path), reply⟩] ∧ ((∃ e, r = .error (.err e))
      ∨ ∃ status body, reply = .response status body ∧ ¬(400 ≤ status ∧ status < 600)
        ∧ r = .ok body) := by
  obtain ⟨reply, tr', rfl, hrest⟩ := run_pushCallBind h
  cases reply with
  | sendError =>
    obtain ⟨rfl, rfl⟩ := run_throw.1 hrest
    exact ⟨_, rfl, .inl ⟨_, rfl⟩⟩
  | response status body =>
    simp only at hrest
    split_ifs at hrest with hstatus
    · obtain ⟨rfl, rfl⟩ := run_throw.1 hrest
      exact ⟨_, rfl, .inl ⟨_, rfl⟩⟩
    · obtain ⟨rfl, rfl⟩ := run_exceptPure.1 hrest
      exact ⟨_, rfl, .inr ⟨status, body, rfl, hstatus, rfl⟩⟩

theorem run_accessToken {r : Except (Abort (HttpError ε)) String}
    (h : Run (client.accessToken tokenOf : Push ε String).run tr r) :
    (∃ url reply, tr = [⟨.get url, reply⟩]) ∧ ((∃ e, r = .error (.err e))
      ∨ ∃ token, Granted tokenOf client tr token ∧ r = .ok token) := by
  rcases run_exceptBind.1 h with ⟨e, rfl, h₁⟩ | ⟨tr₁, tr₂, body, rfl, h₁, h₂⟩
  · obtain ⟨reply, rfl, ⟨e', he⟩ | ⟨_, _, _, _, hok⟩⟩ := run_get h₁
    · cases he
      exact ⟨⟨_, _, rfl⟩, .inl ⟨e', rfl⟩⟩
    · cases hok
  · obtain ⟨reply, rfl, ⟨e', he⟩ | ⟨status, _, rfl, hstatus, hok⟩⟩ := run_get h₁
    · cases he
    cases hok
    cases body with
    | none =>
      obtain ⟨rfl, rfl⟩ := run_throw.1 h₂
      exact ⟨⟨_, _, rfl⟩, .inl ⟨_, rfl⟩⟩
    | some body =>
      simp only at h₂
      split at h₂
      · obtain ⟨rfl, rfl⟩ := run_throw.1 h₂
        exact ⟨⟨_, _, rfl⟩, .inl ⟨_, rfl⟩⟩
      · next token htoken =>
        obtain ⟨rfl, rfl⟩ := run_exceptPure.1 h₂
        exact ⟨⟨_, _, rfl⟩, .inr ⟨token, ⟨status, body, List.mem_cons_self, hstatus, htoken⟩, rfl⟩⟩

/-- The request gets the token of this run, or there is no request. -/
theorem run_authorize {r : Except (Abort (HttpError ε)) PushRequest}
    (h : Run (authorize tokenOf isHeaderValue client request : Push ε PushRequest).run tr r) :
    (∃ url reply, tr = [⟨.get url, reply⟩]) ∧ ((∃ e, r = .error (.err e))
      ∨ ∃ token, Granted tokenOf client tr token ∧ r = .ok { request with
        headers := insertHeader request.headers "authorization" s!"Bearer {token}" }) := by
  rcases run_exceptBind.1 h with ⟨e, rfl, h₁⟩ | ⟨tr₁, tr₂, token, rfl, h₁, h₂⟩
  · obtain ⟨htr, ⟨e', he⟩ | ⟨_, _, hok⟩⟩ := run_accessToken h₁
    · cases he
      exact ⟨htr, .inl ⟨e', rfl⟩⟩
    · cases hok
  · obtain ⟨htr, ⟨e', he⟩ | ⟨_, hgranted, hok⟩⟩ := run_accessToken h₁
    · cases he
    cases hok
    simp only at h₂
    split_ifs at h₂
    · obtain ⟨rfl, rfl⟩ := run_exceptPure.1 h₂
      rw [List.append_nil]
      exact ⟨htr, .inr ⟨token, hgranted, rfl⟩⟩
    · obtain ⟨rfl, rfl⟩ := run_throw.1 h₂
      rw [List.append_nil]
      exact ⟨htr, .inl ⟨_, rfl⟩⟩

/-! ## The pieces -/

/-- The pieces went out in order up to the one that was not accepted, if there was one. -/
structure Sent (parts : PushRequest) (pieces : List (List UInt8)) (tr : Trace pushSig)
    (done unconfirmed left : List (List UInt8)) : Prop where
  pieces : pieces = done ++ unconfirmed ++ left
  accepted : accepted tr = done.map fun body => { parts with body }
  posted : posted tr = (done ++ unconfirmed).map fun body => { parts with body }
  unconfirmed : unconfirmed.length ≤ 1

/-- What the loop returns: a refusal, or the last piece's acceptance after all of them. -/
def Answers (response : Option PushResponse) (pieces unconfirmed left : List (List UInt8)) :
    Except (Abort (HttpError ε)) (Option PushResponse) → Prop
  | .ok none => response = none ∧ pieces = []
  | .ok (some resp) => if resp.isSuccess then unconfirmed = [] ∧ left = [] else unconfirmed ≠ []
  | .error (.err _) => True
  | .error (.panic _) => False

theorem run_sendPieces {r : Except (Abort (HttpError ε)) (Option PushResponse)} :
    ∀ {pieces : List (List UInt8)} {response : Option PushResponse} {tr : Trace pushSig},
      (∀ resp, response = some resp → resp.isSuccess) →
      Run (sendPieces isUrl parts response pieces : Push ε (Option PushResponse)).run tr r →
        rejections tr = [] ∧ ∃ done unconfirmed left,
          Sent parts pieces tr done unconfirmed left ∧ Answers response pieces unconfirmed left r
  | [], response, tr, hresp, h => by
    obtain ⟨rfl, rfl⟩ := run_exceptPure.1 h
    refine ⟨rfl, [], [], [], ⟨rfl, rfl, rfl, Nat.zero_le 1⟩, ?_⟩
    cases response with
    | none => exact ⟨rfl, rfl⟩
    | some resp => simp [Answers, hresp resp rfl]
  | piece :: pieces, response, tr, hresp, h => by
    rw [sendPieces] at h
    split_ifs at h with hurl
    · obtain ⟨reply, tr', rfl, hrest⟩ := run_pushCallBind h
      cases reply with
      | sendError =>
        obtain ⟨rfl, rfl⟩ := run_throw.1 hrest
        exact ⟨rfl, [], [piece], pieces, ⟨rfl, rfl, rfl, Nat.le_refl 1⟩, trivial⟩
      | response resp =>
        simp only at hrest
        split_ifs at hrest with hok
        · obtain ⟨hlog, done, unconfirmed, left, ⟨rfl, hacc, hpost, hle⟩, hans⟩ :=
            run_sendPieces (fun resp' h => Option.some.inj h ▸ hok) hrest
          refine ⟨hlog, piece :: done, unconfirmed, left, ⟨rfl, ?_, ?_, hle⟩, ?_⟩
          · rw [accepted, List.filterMap_cons, ← accepted, hacc]
            simp [hok]
          · rw [posted, List.filterMap_cons, ← posted, hpost]
            rfl
          · rcases r with (e | p) | resp'
            · trivial
            · exact hans
            · cases resp' with
              | none => cases hans.1
              | some resp' => exact hans
        · obtain ⟨rfl, rfl⟩ := run_exceptPure.1 hrest
          refine ⟨rfl, [], [piece], pieces, ⟨rfl, ?_, rfl, Nat.le_refl 1⟩, ?_⟩
          · simp [accepted, hok]
          · simp [Answers, hok]
    · rcases run_exceptBind.1 h with ⟨e, rfl, h₁⟩ | ⟨tr₁, tr₂, _, rfl, h₁, -⟩
      · obtain ⟨rfl, he⟩ := run_throw.1 h₁
        cases he
        exact ⟨rfl, [], [], piece :: pieces, ⟨rfl, rfl, rfl, Nat.zero_le 1⟩, trivial⟩
      · cases (run_throw.1 h₁).2

/-- The exporter is told what the last response was, and a rejection is logged as well. -/
theorem run_report {response : Option PushResponse}
    {r : Except (Abort (HttpError ε)) (PushResponse × List UInt8)}
    (h : Run (report response : Push ε (PushResponse × List UInt8)).run tr r) :
    posted tr = [] ∧ accepted tr = [] ∧ match r with
      | .ok (resp, bytes) => response = some resp
        ∧ rejections tr = if resp.isSuccess then [] else [(resp.status, bytes)]
      | .error (.err _) => rejections tr = []
      | .error (.panic _) => response = none := by
  cases response with
  | none =>
    obtain ⟨rfl, rfl⟩ := run_throw.1 h
    exact ⟨rfl, rfl, rfl⟩
  | some resp =>
    obtain ⟨body, tr', rfl, hrest⟩ := run_pushCallBind h
    cases body with
    | none =>
      obtain ⟨rfl, rfl⟩ := run_throw.1 hrest
      exact ⟨rfl, rfl, rfl⟩
    | some bytes =>
      simp only at hrest
      split_ifs at hrest with hok
      · obtain ⟨rfl, rfl⟩ := run_exceptPure.1 hrest
        exact ⟨rfl, rfl, rfl, by rw [if_pos hok]; rfl⟩
      · obtain ⟨_, tr', rfl, hend⟩ := run_pushCallBind hrest
        obtain ⟨rfl, rfl⟩ := run_exceptPure.1 hend
        exact ⟨rfl, rfl, rfl, by rw [if_neg hok]; rfl⟩

/-! ## The split -/

variable {encode : ExportMetricsServiceRequest T → List UInt8}
  {decode : List UInt8 → Except ε (ExportMetricsServiceRequest T)} {fuel max : ℕ}

/-- The bodies encode requests of at most `max` points, whose rows are the rows `all`. -/
def Deals (decode : List UInt8 → Except ε (ExportMetricsServiceRequest T)) (max : ℕ)
    (all : List (Row T)) (bodies : List (List UInt8)) : Prop :=
  ∃ reqs : List (ExportMetricsServiceRequest T), bodies.map decode = reqs.map .ok
    ∧ (∀ q ∈ reqs, totalPoints q ≤ max) ∧ reqs.flatMap rows = all

theorem Deals.append {all : List (Row T)} {bodies bodies' : List (List UInt8)}
    (h : Deals decode max all (bodies ++ bodies')) : ∃ first last,
      all = first ++ last ∧ Deals decode max first bodies ∧ Deals decode max last bodies' := by
  obtain ⟨reqs, hdecode, hle, hrows⟩ := h
  rw [List.map_append] at hdecode
  obtain ⟨reqs₁, reqs₂, rfl, h₁, h₂⟩ := List.map_eq_append_iff.1 hdecode.symm
  rw [List.flatMap_append] at hrows
  exact ⟨_, _, hrows.symm, ⟨reqs₁, h₁.symm, fun q hq => hle q (List.mem_append_left _ hq), rfl⟩,
    reqs₂, h₂.symm, fun q hq => hle q (List.mem_append_right _ hq), rfl⟩

theorem splitRequest_deals (max : ℕ) (hinv : ∀ q, decode (encode q) = .ok q) (hpos : 1 ≤ max)
    {body : List UInt8} {req : ExportMetricsServiceRequest T} (hbody : decode body = .ok req)
    (hfuel : totalPoints req < fuel) : ∃ pieces, pieces ≠ []
      ∧ (splitRequest encode decode fuel body max).run = some (.ok pieces)
      ∧ Deals decode max (rows req) pieces := by
  by_cases hsmall : totalPoints req ≤ max
  · refine ⟨[body], by simp, ?_, [req], by simp [hbody], by simpa using hsmall, by simp⟩
    simp only [splitRequest, hbody, Rust.ofExcept, Fueled.of_ok, pure_bind, if_pos hsmall]
    rfl
  obtain ⟨s, hs, hsplit⟩ := @splitting_all T encode ε max req hpos
  obtain ⟨reqs, hreqs, hbounds, hrows⟩ := hsplit.requests
  refine ⟨reqs.map encode, ?_, ?_, reqs, ?_, fun q hq => (hbounds q hq).2, hrows⟩
  · intro hnil
    rw [List.map_eq_nil_iff.1 hnil] at hrows
    rw [totalPoints_eq, ← hrows] at hsmall
    simp at hsmall
  · simp only [splitRequest, hbody, Rust.ofExcept, Fueled.of_ok, pure_bind, if_neg hsmall,
      hs ⟨fuel, hfuel⟩, hreqs]
    rfl
  · rw [List.map_map]
    exact List.map_congr_left fun q _ => hinv q

theorem splitRequest_error {body : List UInt8} {e : ε} (hbody : decode body = .error e) :
    (splitRequest encode decode fuel body max).run = some (.error (.err e)) := by
  simp only [splitRequest, hbody, Rust.ofExcept]
  rfl

/-! ## The export -/

/-- Nothing went to the API but copies of the request with the token of this run, whatever the
bodies. -/
def Credentialed (tokenOf : String → Option String) (client : MetadataClient)
    (request : PushRequest) (tr : Trace pushSig) : Prop :=
  posted tr = [] ∨ ∃ token, Granted tokenOf client tr token ∧ ∀ q ∈ posted tr,
    q = { request with
      headers := insertHeader request.headers "authorization" s!"Bearer {token}"
      body := q.body }

/-- The rows of `req` are those the API accepted, then those of at most one request it did not
accept, then those that were not sent; `all` says that the first are all. -/
def Delivered (decode : List UInt8 → Except ε (ExportMetricsServiceRequest T))
    (req : ExportMetricsServiceRequest T) (tr : Trace pushSig) (all : Prop) : Prop :=
  ∃ unconfirmed first last left, posted tr = accepted tr ++ unconfirmed ∧ unconfirmed.length ≤ 1
    ∧ rows req = first ++ last ++ left
    ∧ Deals decode maxPointsPerRequest first ((accepted tr).map PushRequest.body)
    ∧ Deals decode maxPointsPerRequest last (unconfirmed.map PushRequest.body)
    ∧ (all → unconfirmed = [] ∧ left = [])

/-- What is logged of the result. -/
def Logged (tr : Trace pushSig) :
    Except (Abort (HttpError ε)) (PushResponse × List UInt8) → Prop
  | .ok (resp, bytes) => rejections tr = if resp.isSuccess then [] else [(resp.status, bytes)]
  | .error _ => rejections tr = []

/-- The exporter is told of a success. -/
def Succeeds (result : Except (Abort (HttpError ε)) (PushResponse × List UInt8)) : Prop :=
  ∃ resp bytes, result = .ok (resp, bytes) ∧ resp.isSuccess

theorem deals_nil : Deals decode max [] [] := ⟨[], rfl, by simp, rfl⟩

theorem delivered_none {req : ExportMetricsServiceRequest T} {all : Prop} (hpost : posted tr = [])
    (hacc : accepted tr = []) (hall : ¬all) : Delivered decode req tr all :=
  ⟨[], [], [], rows req, by rw [hpost, hacc]; rfl, Nat.zero_le 1, rfl, hacc ▸ deals_nil, deals_nil,
    fun h => absurd h hall⟩

theorem Sent.delivered {req : ExportMetricsServiceRequest T} {all : Prop}
    {pieces done unconfirmed left : List (List UInt8)}
    (h : Sent parts pieces tr done unconfirmed left)
    (hdeals : Deals decode maxPointsPerRequest (rows req) pieces)
    (hall : all → unconfirmed = [] ∧ left = []) : Delivered decode req tr all := by
  rw [h.pieces] at hdeals
  obtain ⟨sent, rest, hrows, hsent, hrest⟩ := hdeals.append
  obtain ⟨first, last, rfl, hfirst, hlast⟩ := hsent.append
  have hbodies : ∀ l : List (List UInt8),
      (l.map fun body => { parts with body }).map PushRequest.body = l := by
    intro l
    rw [List.map_map]
    exact List.map_id l
  refine ⟨unconfirmed.map fun body => { parts with body }, first, last, rest, ?_, ?_, hrows, ?_,
    ?_, fun h => ?_⟩
  · rw [h.posted, h.accepted, List.map_append]
  · rw [List.length_map]
    exact h.unconfirmed
  · rwa [h.accepted, hbodies]
  · rwa [hbodies]
  · obtain ⟨rfl, rfl⟩ := hall h
    obtain ⟨reqs, hreqs, -, hrest⟩ := hrest
    obtain rfl := List.map_eq_nil_iff.1 hreqs.symm
    exact ⟨rfl, hrest.symm⟩

theorem run_pieces {pieces : List (List UInt8)}
    {r : Except (Abort (HttpError ε)) (PushResponse × List UInt8)} (hne : pieces ≠ [])
    (h : Run (sendPieces isUrl parts none pieces >>= report).run tr r) :
    (∀ p, r ≠ .error (.panic p)) ∧ Logged tr r ∧ ∃ done unconfirmed left,
      Sent parts pieces tr done unconfirmed left
        ∧ (Succeeds r → unconfirmed = [] ∧ left = []) := by
  rcases run_exceptBind.1 h with ⟨e, rfl, h₁⟩ | ⟨tr₁, tr₂, response, rfl, h₁, h₂⟩
  · obtain ⟨hlog, done, unconfirmed, left, hsent, hans⟩ :=
      run_sendPieces (fun resp h => (by cases h)) h₁
    refine ⟨?_, hlog, done, unconfirmed, left, hsent, fun ⟨resp, bytes, h, _⟩ => (by cases h)⟩
    rintro p hp
    cases hp
    exact hans
  · obtain ⟨hlog, done, unconfirmed, left, hsent, hans⟩ :=
      run_sendPieces (fun resp h => (by cases h)) h₁
    obtain ⟨hpost, hacc, hreport⟩ := run_report h₂
    have hsent' : Sent parts pieces (tr₁ ++ tr₂) done unconfirmed left :=
      ⟨hsent.pieces, by rw [accepted_append, hacc, List.append_nil, hsent.accepted],
        by rw [posted_append, hpost, List.append_nil, hsent.posted], hsent.unconfirmed⟩
    rcases r with (e | p) | ⟨resp, bytes⟩
    · refine ⟨fun p h => (by cases h), ?_, done, unconfirmed, left, hsent',
        fun ⟨resp, bytes, h, _⟩ => (by cases h)⟩
      rw [Logged, rejections_append, hlog, hreport]
      rfl
    · have hnone : response = none := hreport
      rw [hnone] at hans
      exact absurd hans.2 hne
    · obtain ⟨hresp, hlogged⟩ := hreport
      rw [hresp] at hans
      refine ⟨fun p h => (by cases h), ?_, done, unconfirmed, left, hsent', ?_⟩
      · rw [Logged, rejections_append, hlog, hlogged]
        rfl
      · rintro ⟨resp', bytes', h, hok⟩
        cases h
        rw [Answers, if_pos hok] at hans
        exact hans

/-- Every export: without the token of this run nothing is sent. What the API accepted of it is a
first stretch of its rows, in requests the API takes, and the first request it does not accept is
the last; an export reported as a success was accepted whole, and a refusal is logged. -/
theorem export_delivered (hinv : ∀ q, decode (encode q) = .ok q)
    (hfuel : ∀ req, decode request.body = .ok req → totalPoints req < fuel)
    {r : Option (Except (Abort (HttpError ε)) (PushResponse × List UInt8))}
    (hrun : Run (sendBytes tokenOf isHeaderValue isUrl encode decode fuel client request) tr r) :
    ∃ result, r = some result ∧ (∀ p, result ≠ .error (.panic p))
      ∧ Credentialed tokenOf client request tr ∧ Logged tr result
      ∧ (∀ req, decode request.body = .ok req → Delivered decode req tr (Succeeds result))
      ∧ ∀ e, decode request.body = .error e → posted tr = [] := by
  obtain ⟨tr₁, tr₂, auth, rfl, h₁, h₂⟩ := run_bind.1 hrun
  obtain ⟨⟨url, reply, rfl⟩, hauth⟩ := run_authorize h₁
  have hfailed : ∀ e : HttpError ε, ¬Succeeds (.error (.err e)) := by
    rintro e ⟨resp, bytes, h, -⟩
    cases h
  rcases hauth with ⟨e, rfl⟩ | ⟨token, hgranted, rfl⟩
  · obtain ⟨rfl, rfl⟩ := run_pure.1 h₂
    exact ⟨_, rfl, fun p h => (by cases h), .inl rfl, rfl,
      fun req _ => delivered_none rfl rfl (hfailed e), fun _ _ => rfl⟩
  rcases hbody : decode request.body with e | req
  · simp only [splitRequest_error hbody] at h₂
    obtain ⟨rfl, rfl⟩ := run_pure.1 h₂
    exact ⟨_, rfl, fun p h => (by cases h), .inl rfl, rfl, fun req h => (by cases h),
      fun _ _ => rfl⟩
  obtain ⟨pieces, hne, hsplit, hdeals⟩ := splitRequest_deals maxPointsPerRequest hinv
    (by decide) hbody (hfuel req hbody)
  simp only [hsplit] at h₂
  obtain ⟨tr₂, tr₃, result, rfl, hpieces, hend⟩ := run_bind.1 h₂
  obtain ⟨rfl, rfl⟩ := run_pure.1 hend
  rw [List.append_nil]
  obtain ⟨hpanic, hlogged, done, unconfirmed, left, hsent, hall⟩ := run_pieces hne hpieces
  refine ⟨result, rfl, hpanic, .inr ⟨token, ?_, ?_⟩, ?_, ?_, fun e h => (by cases h)⟩
  · obtain ⟨status, body, hmem, hgranted⟩ := hgranted
    exact ⟨status, body, List.mem_append_left _ hmem, hgranted⟩
  · intro q hq
    have hq : q ∈ posted tr₂ := hq
    rw [hsent.posted] at hq
    obtain ⟨body, -, rfl⟩ := List.mem_map.1 hq
    rfl
  · cases result with
    | ok res => exact hlogged
    | error e => exact hlogged
  · rintro _ ⟨rfl⟩
    obtain ⟨unconfirmed', first, last, left', hdelivered⟩ := hsent.delivered hdeals hall
    exact ⟨unconfirmed', first, last, left', hdelivered⟩

section Sample

def sampleClient : MetadataClient := .new none none

/-- The protobuf bytes of `gaugeRequest 201`. -/
def manyPointBytes : List UInt8 :=
  [0x0a, 0x9b, 3, 0x12, 0x98, 3, 0x12, 0x95, 3, 0x2a, 0x92, 3]
    ++ (List.replicate 201 [0x0a, 0]).flatten

def manyDecode (b : List UInt8) : Except Unit (ExportMetricsServiceRequest sampleTypes) :=
  if b = manyPointBytes then .ok (gaugeRequest 201) else sampleDecode b

theorem manyDecode_sampleEncode (r : ExportMetricsServiceRequest sampleTypes) :
    manyDecode (sampleEncode r) = .ok r := by
  have hne : sampleEncode r ≠ manyPointBytes := by
    unfold sampleEncode
    split
    · exact fun h => absurd (congrArg (·[1]?) h : some (8 : UInt8) = some 0x9b) (by decide)
    · intro h
      have hmem : (0x0a : UInt8) ∈ List.replicate (Encodable.encode r) 0 := by
        rw [h]
        exact List.mem_append_left _ List.mem_cons_self
      exact absurd (List.eq_of_mem_replicate hmem) (by decide)
  rw [manyDecode, if_neg hne, sampleDecode_sampleEncode]

theorem totalPoints_gauge (n : ℕ) : totalPoints (gaugeRequest n) = n :=
  have hpoints : totalPoints (gaugeRequest n) = (List.replicate n ()).length := rfl
  hpoints.trans List.length_replicate

/-- One point more than a request may have. -/
def samplePush : PushRequest :=
  ⟨"POST", "https://telemetry.googleapis.com/v1/metrics",
    [("content-type", "application/x-protobuf")], manyPointBytes⟩

/-- What the API gets of `samplePush`. -/
def samplePosted (body : List UInt8) : PushRequest :=
  { samplePush with
    headers := insertHeader samplePush.headers "authorization" "Bearer t0k3n"
    body }

/-- The first piece is accepted, the second is not. -/
def sampleExport (first second : List UInt8) : Trace pushSig :=
  [⟨.get (sampleClient.base ++ "/instance/service-accounts/default/token"),
      .response 200 (some "\x7b\"access_token\":\"t0k3n\"\x7d")⟩,
    ⟨.execute (samplePosted first), .response ⟨200, []⟩⟩,
    ⟨.execute (samplePosted second), .response ⟨429, []⟩⟩, ⟨.readBody, some []⟩,
    ⟨.logRejected 429 [], ()⟩]

theorem export_delivered_refused : ∃ first second : List UInt8,
    Run (sendBytes (fun _ => some "t0k3n") (fun _ => true) (fun _ => true) sampleEncode manyDecode
        202 sampleClient samplePush) (sampleExport first second) (some (.ok (⟨429, []⟩, [])))
      ∧ Credentialed (fun _ => some "t0k3n") sampleClient samplePush (sampleExport first second)
      ∧ Delivered manyDecode (gaugeRequest 201) (sampleExport first second) False := by
  have hbody : manyDecode samplePush.body = .ok (gaugeRequest 201) := if_pos rfl
  have hfuel : ∀ req, manyDecode samplePush.body = .ok req → totalPoints req < 202 := by
    intro req hreq
    cases hbody.symm.trans hreq
    rw [totalPoints_gauge]
    decide
  obtain ⟨pieces, -, hsplit, reqs, hdecode, hle, hrows⟩ := splitRequest_deals maxPointsPerRequest
    manyDecode_sampleEncode (by decide) hbody (hfuel _ hbody)
  -- one request would have all the points
  obtain ⟨first, second, rest, rfl⟩ : ∃ first second rest, pieces = first :: second :: rest := by
    rcases reqs with _ | ⟨q, _ | ⟨q', reqs⟩⟩
    · have := congrArg List.length hrows
      rw [← totalPoints_eq, totalPoints_gauge] at this
      simp at this
    · have := hle q (by simp)
      rw [List.flatMap_singleton] at hrows
      rw [totalPoints_eq, hrows, ← totalPoints_eq, totalPoints_gauge] at this
      exact absurd this (by decide)
    · rcases pieces with _ | ⟨first, _ | ⟨second, rest⟩⟩
      · simp at hdecode
      · simp at hdecode
      · exact ⟨first, second, rest, rfl⟩
  have hrun : Run (sendBytes (fun _ => some "t0k3n") (fun _ => true) (fun _ => true) sampleEncode
      manyDecode 202 sampleClient samplePush) (sampleExport first second)
      (some (.ok (⟨429, []⟩, []))) := by
    refine run_bind.2 ⟨(sampleExport first second).take 1, (sampleExport first second).drop 1,
      .ok (samplePosted manyPointBytes), rfl, .op (.refl _), ?_⟩
    simp only [samplePosted, hsplit]
    exact run_bind.2 ⟨(sampleExport first second).drop 1, [], _, by simp,
      .op (.op (.op (.op (.refl _)))), run_pure.2 ⟨rfl, rfl⟩⟩
  obtain ⟨result, hresult, -, hcred, -, hdelivered, -⟩ :=
    export_delivered manyDecode_sampleEncode hfuel hrun
  cases hresult
  obtain ⟨unconfirmed, done, last, left, hpost, hlen, hsame, hdone, hlast, -⟩ :=
    hdelivered (gaugeRequest 201) hbody
  exact ⟨first, second, hrun, hcred, unconfirmed, done, last, left, hpost, hlen, hsame, hdone,
    hlast, False.elim⟩

end Sample

end Teecryptor.Otlp
