import Teecryptor.Keys

/-!
# Each partner's token reads that partner's secret

A token is exchanged for an attestation of its partner's own audience, one partner after the other,
and a partner whose chain fails is left out without touching the others (`Federated`). Paired by
project, the tokens that reach `cofhe-keys` go with the partners they were minted for.
-/

namespace Teecryptor.Keys

open Interact Interact.Prog Rust Text

variable {json : String → List Char} {eps : Endpoints} {tr : Trace keySig} {ε α β : Type}

theorem run_keyCallBind {o : KeyOp} {f : o.Ans → KeyTask ε α} {r : Except ε α} :
    Run (keyCall o >>= f).run tr r ↔ ∃ x tr', tr = ⟨o, x⟩ :: tr' ∧ Run (f x).run tr' r := by
  rw [keyCall, run_liftBind]
  constructor
  · rintro ⟨tr₁, tr₂, x, rfl, h₁, h₂⟩
    obtain rfl := run_call.1 h₁
    exact ⟨x, tr₂, rfl, h₂⟩
  · rintro ⟨x, tr', rfl, h⟩
    exact ⟨[⟨o, x⟩], tr', x, rfl, run_call.2 rfl, h⟩

theorem run_ofExcept {r r' : Except ε α} :
    Run (KeyTask.ofExcept r).run tr r' ↔ tr = [] ∧ r' = r := by
  rw [KeyTask.ofExcept, ExceptT.run_mk, pure_eq, run_pure]

/-- What a call gives, read from its answer. -/
def Awaited.result (timedOut : ε) (failed : String → ε) : Awaited α → Except ε α
  | .ok a => .ok a
  | .error msg => .error (failed msg)
  | .elapsed => .error timedOut

theorem run_awaited {timedOut : ε} {failed : String → ε} {x : Awaited α} {r : Except ε α} :
    Run (awaited timedOut failed x).run tr r ↔ tr = [] ∧ r = x.result timedOut failed := by
  rcases x with a | msg | _
  · exact run_exceptPure
  · exact run_throw
  · exact run_throw

/-- Code that goes on with a call's result ends with its error, or goes on. -/
theorem run_awaitedBind {timedOut : ε} {failed : String → ε} {x : Awaited α}
    {f : α → KeyTask ε β} {r : Except ε β} : Run (awaited timedOut failed x >>= f).run tr r ↔
      (∃ e, x.result timedOut failed = .error e ∧ tr = [] ∧ r = .error e)
        ∨ ∃ a, x = .ok a ∧ Run (f a).run tr r := by
  rw [run_exceptBind]
  constructor
  · rintro (⟨e, rfl, h⟩ | ⟨tr₁, tr₂, a, rfl, h₁, h₂⟩)
    · obtain ⟨rfl, he⟩ := run_awaited.1 h
      exact .inl ⟨e, he.symm, rfl, rfl⟩
    · obtain ⟨rfl, ha⟩ := run_awaited.1 h₁
      rcases x with a' | msg | _
      · cases ha
        exact .inr ⟨a, rfl, h₂⟩
      · cases ha
      · cases ha
  · rintro (⟨e, he, rfl, rfl⟩ | ⟨a, rfl, h⟩)
    · exact .inl ⟨e, rfl, run_awaited.2 ⟨rfl, he.symm⟩⟩
    · exact .inr ⟨[], tr, a, rfl, run_awaited.2 ⟨rfl, rfl⟩, h⟩

/-! ## One partner -/

/-- The launcher's socket is asked for a token of the audience, and answers. -/
def attested (json : String → List Char) (socketPath audience : String) (response : List UInt8) :
    Trace keySig :=
  [⟨.connect socketPath, .ok ()⟩, ⟨.writeAll (tokenRequest json audience), .ok ()⟩,
    ⟨.readToEnd, .ok response⟩]

/-- The parts of the loading, in their order. -/
inductive Stage
  | attestation
  | exchange
  | metadata
  | read
  deriving DecidableEq

def KeyOp.stage : KeyOp → Stage
  | connect _ => .attestation
  | writeAll _ => .attestation
  | readToEnd => .attestation
  | exchange _ _ _ => .exchange
  | metadataToken => .metadata
  | readFhePriv _ _ _ _ _ _ => .read

theorem run_fetchToken {socketPath audience : String} {r : Except AttestationError String}
    (h : Run (fetchToken json socketPath audience).run tr r) :
    (∀ e ∈ tr, e.1.stage = .attestation)
      ∧ ∀ jwt, r = .ok jwt → ∃ response, tr = attested json socketPath audience response
        ∧ parseToken response = .ok jwt := by
  obtain ⟨x, tr₁, rfl, h₁⟩ := run_keyCallBind.1 h
  rcases run_awaitedBind.1 h₁ with ⟨e, -, rfl, rfl⟩ | ⟨⟨⟩, rfl, h₂⟩
  · simp [KeyOp.stage]
  obtain ⟨y, tr₂, rfl, h₃⟩ := run_keyCallBind.1 h₂
  rcases run_awaitedBind.1 h₃ with ⟨e, -, rfl, rfl⟩ | ⟨⟨⟩, rfl, h₄⟩
  · simp [KeyOp.stage]
  obtain ⟨z, tr₃, rfl, h₅⟩ := run_keyCallBind.1 h₄
  rcases run_awaitedBind.1 h₅ with ⟨e, -, rfl, rfl⟩ | ⟨response, rfl, h₆⟩
  · simp [KeyOp.stage]
  obtain ⟨rfl, rfl⟩ := run_ofExcept.1 h₆
  exact ⟨by simp [KeyOp.stage], fun jwt hjwt => ⟨response, rfl, hjwt⟩⟩

/-- A partner's chain stops at the attestation, or exchanges the token attested for its audience. -/
theorem run_partnerToken {p : PartnerRef} {r : Except FederationError String}
    (h : Run (partnerToken json eps p).run tr r) :
    ((∀ e ∈ tr, e.1.stage = .attestation) ∧ ∃ e, r = .error e)
      ∨ ∃ response jwt x, parseToken response = .ok jwt
        ∧ tr = attested json eps.attestationSocket p.wipAudience response
          ++ [⟨.exchange eps.stsUrl p.wipAudience jwt, x⟩]
        ∧ ∀ smToken, r = .ok smToken → x = .ok smToken := by
  rcases run_exceptBind.1 h with ⟨e, rfl, h₁⟩ | ⟨tr₁, tr₂, jwt, rfl, h₁, h₂⟩
  · obtain ⟨e', -, h₁⟩ := run_adapt_error.1 h₁
    exact .inl ⟨(run_fetchToken h₁).1, e, rfl⟩
  · obtain ⟨response, rfl, hparse⟩ := (run_fetchToken (run_adapt_ok.1 h₁)).2 jwt rfl
    obtain ⟨x, tr₃, rfl, h₃⟩ := run_keyCallBind.1 h₂
    obtain ⟨rfl, rfl⟩ := run_awaited.1 h₃
    refine .inr ⟨response, jwt, x, hparse, rfl, fun smToken hs => ?_⟩
    rcases x with a | msg | _
    · cases hs
      rfl
    · cases hs
    · cases hs

/-! ## All partners -/

/-- In `tr` the partners go through their chains in order: one whose chain ends with a token is
given it, and the others failed. -/
inductive Federated (json : String → List Char) (eps : Endpoints) :
    List PartnerRef → Trace keySig → List PartnerToken → List String → Prop
  | nil : Federated json eps [] [] [] []
  | joined {p : PartnerRef} {partners : List PartnerRef} {tr tr' : Trace keySig} {smToken : String}
      {tokens : List PartnerToken} {failed : List String} :
      Run (partnerToken json eps p).run tr (.ok smToken) →
      Federated json eps partners tr' tokens failed →
      Federated json eps (p :: partners) (tr ++ tr') (⟨p.projectId, smToken⟩ :: tokens) failed
  | excluded {p : PartnerRef} {partners : List PartnerRef} {tr tr' : Trace keySig}
      {e : FederationError} {tokens : List PartnerToken} {failed : List String} :
      Run (partnerToken json eps p).run tr (.error e) →
      Federated json eps partners tr' tokens failed →
      Federated json eps (p :: partners) (tr ++ tr') tokens (p.projectId :: failed)

theorem run_loadPartnerTokens {partners : List PartnerRef} {tokens : List PartnerToken}
    {failed : List String} {r : List PartnerToken × List String}
    (h : Run (loadPartnerTokens json eps partners tokens failed) tr r) :
    ∃ ts fs, r = (tokens ++ ts, failed ++ fs) ∧ Federated json eps partners tr ts fs := by
  induction partners generalizing tr tokens failed with
  | nil =>
    obtain ⟨rfl, rfl⟩ := run_pure.1 h
    exact ⟨[], [], by simp, .nil⟩
  | cons p partners ih =>
    obtain ⟨tr₁, tr₂, e | smToken, rfl, h₁, h₂⟩ := run_bind.1 h
    · obtain ⟨ts, fs, rfl, hf⟩ := ih h₂
      exact ⟨ts, p.projectId :: fs, by simp, .excluded h₁ hf⟩
    · obtain ⟨ts, fs, rfl, hf⟩ := ih h₂
      exact ⟨⟨p.projectId, smToken⟩ :: ts, fs, by simp, .joined h₁ hf⟩

/-- In `tr` the launcher's token for the audience of `p` was exchanged, with the answer `x`. -/
def Exchanged (json : String → List Char) (eps : Endpoints) (tr : Trace keySig) (p : PartnerRef)
    (jwt : String) (x : Awaited String) : Prop :=
  ∃ response, parseToken response = .ok jwt
    ∧ attested json eps.attestationSocket p.wipAudience response
      ++ [⟨.exchange eps.stsUrl p.wipAudience jwt, x⟩] <:+: tr

theorem Exchanged.mono {tr' : Trace keySig} {p : PartnerRef} {jwt : String} {x : Awaited String}
    (hs : tr <:+: tr') (h : Exchanged json eps tr p jwt x) : Exchanged json eps tr' p jwt x := by
  obtain ⟨response, hparse, hin⟩ := h
  exact ⟨response, hparse, hin.trans hs⟩

/-- Every exchange in `tr` is of a token attested for the audience of one of the partners. -/
def OwnAudience (json : String → List Char) (eps : Endpoints) (partners : List PartnerRef)
    (tr : Trace keySig) : Prop :=
  ∀ url audience jwt x, (⟨.exchange url audience jwt, x⟩ : Event keySig) ∈ tr →
    url = eps.stsUrl ∧ ∃ p ∈ partners, p.wipAudience = audience ∧ Exchanged json eps tr p jwt x

theorem ownAudience_partnerToken {p : PartnerRef} {r : Except FederationError String}
    (h : Run (partnerToken json eps p).run tr r) : OwnAudience json eps [p] tr := by
  intro url audience jwt x hmem
  rcases run_partnerToken h with ⟨honly, -⟩ | ⟨response, jwt', x', hparse, rfl, -⟩
  · cases honly _ hmem
  · simp only [attested, List.cons_append, List.nil_append, List.mem_cons, Sigma.mk.injEq,
      reduceCtorEq, false_and, false_or, List.not_mem_nil, or_false, KeyOp.exchange.injEq] at hmem
    obtain ⟨⟨rfl, rfl, rfl⟩, hx⟩ := hmem
    cases hx
    exact ⟨rfl, p, List.mem_singleton_self p, rfl, response, hparse, List.infix_rfl⟩

theorem OwnAudience.append {partners partners' : List PartnerRef} {tr' : Trace keySig}
    (h : OwnAudience json eps partners tr) (h' : OwnAudience json eps partners' tr') :
    OwnAudience json eps (partners ++ partners') (tr ++ tr') := by
  intro url audience jwt x hmem
  rcases List.mem_append.1 hmem with hmem | hmem
  · obtain ⟨hurl, p, hp, haud, hex⟩ := h url audience jwt x hmem
    exact ⟨hurl, p, List.mem_append_left _ hp, haud,
      hex.mono (List.prefix_append tr tr').isInfix⟩
  · obtain ⟨hurl, p, hp, haud, hex⟩ := h' url audience jwt x hmem
    exact ⟨hurl, p, List.mem_append_right _ hp, haud,
      hex.mono (List.suffix_append tr tr').isInfix⟩

theorem stage_partnerToken {p : PartnerRef} {r : Except FederationError String}
    (h : Run (partnerToken json eps p).run tr r) {e : Event keySig} (he : e ∈ tr) :
    e.1.stage = .attestation ∨ e.1.stage = .exchange := by
  rcases run_partnerToken h with ⟨honly, -⟩ | ⟨response, jwt, x, -, rfl, -⟩
  · exact .inl (honly e he)
  · simp only [attested, List.cons_append, List.nil_append, List.mem_cons, List.not_mem_nil,
      or_false] at he
    rcases he with rfl | rfl | rfl | rfl
    · exact .inl rfl
    · exact .inl rfl
    · exact .inl rfl
    · exact .inr rfl

section Federated

variable {partners : List PartnerRef} {tokens : List PartnerToken} {failed : List String}

theorem Federated.ownAudience (h : Federated json eps partners tr tokens failed) :
    OwnAudience json eps partners tr := by
  induction h with
  | nil => exact fun _ _ _ _ hmem => absurd hmem List.not_mem_nil
  | joined hp _ ih => exact (ownAudience_partnerToken hp).append ih
  | excluded hp _ ih => exact (ownAudience_partnerToken hp).append ih

theorem Federated.stage (h : Federated json eps partners tr tokens failed) :
    ∀ e ∈ tr, e.1.stage = .attestation ∨ e.1.stage = .exchange := by
  induction h with
  | nil => exact fun _ hmem => absurd hmem List.not_mem_nil
  | joined hp _ ih =>
    exact fun e he => (List.mem_append.1 he).elim (stage_partnerToken hp) (ih e)
  | excluded hp _ ih =>
    exact fun e he => (List.mem_append.1 he).elim (stage_partnerToken hp) (ih e)

/-- Every partner has a token or is among the failed, in the partners' order. -/
theorem Federated.shuffle (h : Federated json eps partners tr tokens failed) :
    Shuffle (tokens.map (·.projectId)) failed (partners.map (·.projectId)) := by
  induction h with
  | nil => exact .nil
  | joined _ _ ih => exact .left ih
  | excluded _ _ ih => exact .right ih

/-- A token was given out for an attestation of its partner's own audience. -/
theorem Federated.minted (h : Federated json eps partners tr tokens failed) {t : PartnerToken}
    (ht : t ∈ tokens) : ∃ p ∈ partners, p.projectId = t.projectId
      ∧ ∃ jwt, Exchanged json eps tr p jwt (.ok t.smToken) := by
  induction h with
  | nil => exact absurd ht List.not_mem_nil
  | @joined p partners tr tr' smToken tokens failed hp _ ih =>
    rcases List.mem_cons.1 ht with rfl | ht
    · rcases run_partnerToken hp with ⟨-, e, he⟩ | ⟨response, jwt, x, hparse, rfl, hx⟩
      · cases he
      · rw [hx smToken rfl]
        exact ⟨p, List.mem_cons_self, rfl, jwt, response, hparse,
          (List.prefix_append _ tr').isInfix⟩
    · obtain ⟨q, hq, hid, jwt, hex⟩ := ih ht
      exact ⟨q, List.mem_cons_of_mem _ hq, hid, jwt, hex.mono (List.suffix_append tr tr').isInfix⟩
  | @excluded p partners tr tr' e tokens failed hp _ ih =>
    obtain ⟨q, hq, hid, jwt, hex⟩ := ih ht
    exact ⟨q, List.mem_cons_of_mem _ hq, hid, jwt, hex.mono (List.suffix_append tr tr').isInfix⟩

end Federated

/-! ## The pairing -/

/-- The token an access carries, under the project of its partner. -/
def PartnerAccess.token (a : PartnerAccess) : PartnerToken := ⟨a.partner.projectId, a.smToken⟩

/-- Tokens of partners are paired, each with a partner of its project. -/
theorem pairTokens_ok {partners : List PartnerRef} : ∀ {tokens : List PartnerToken},
    (∀ t ∈ tokens, ∃ p ∈ partners, p.projectId = t.projectId) →
    ∃ accesses, pairTokens partners tokens = .ok accesses
      ∧ accesses.map PartnerAccess.token = tokens ∧ ∀ a ∈ accesses, a.partner ∈ partners
  | [], _ => ⟨[], rfl, rfl, by simp⟩
  | t :: tokens, h => by
    obtain ⟨p, hp, hid⟩ := h t List.mem_cons_self
    obtain ⟨accesses, hok, htokens, hmem⟩ :=
      pairTokens_ok fun t' ht' => h t' (List.mem_cons_of_mem _ ht')
    obtain ⟨partner, hfind⟩ : ∃ partner,
        partners.find? (·.projectId = t.projectId) = some partner := by
      rw [← Option.isSome_iff_exists, List.find?_isSome]
      exact ⟨p, hp, decide_eq_true hid⟩
    have hfound : partner.projectId = t.projectId := by
      simpa using List.find?_some hfind
    refine ⟨⟨partner, t.smToken⟩ :: accesses, ?_, ?_, ?_⟩
    · rw [pairTokens, hfind, hok]
      rfl
    · rw [List.map_cons, htokens, PartnerAccess.token, hfound]
    · intro a ha
      rcases List.mem_cons.1 ha with rfl | ha
      · exact List.mem_of_find?_eq_some hfind
      · exact hmem a ha

/-! ## `load_keys` -/

/-- The tokens that go to `cofhe-keys`, after the partners went through their chains in `tr`: every
partner has an access or is among the failed, and an access carries the token given out for its
partner's own attestation. Tokens are matched to partners by the project id, so the last holds
where no two partners share one. -/
structure Accesses (json : String → List Char) (eps : Endpoints) (partners : List PartnerRef)
    (tr : Trace keySig) (accesses : List PartnerAccess) (failed : List String) : Prop where
  federated : Federated json eps partners tr (accesses.map PartnerAccess.token) failed
  shuffle : Shuffle (accesses.map fun a => a.partner.projectId) failed
    (partners.map (·.projectId))
  partner : ∀ a ∈ accesses, a.partner ∈ partners
  minted : (partners.map (·.projectId)).Nodup → ∀ a ∈ accesses,
    ∃ jwt, Exchanged json eps tr a.partner jwt (.ok a.smToken)

theorem Federated.accesses {partners : List PartnerRef} {accesses : List PartnerAccess}
    {failed : List String}
    (h : Federated json eps partners tr (accesses.map PartnerAccess.token) failed)
    (hmem : ∀ a ∈ accesses, a.partner ∈ partners) :
    Accesses json eps partners tr accesses failed where
  federated := h
  shuffle := by
    have hs := h.shuffle
    rwa [List.map_map] at hs
  partner := hmem
  minted := by
    intro hnodup a ha
    obtain ⟨p, hp, hid, jwt, hex⟩ := h.minted (List.mem_map_of_mem ha)
    obtain rfl : p = a.partner := List.inj_on_of_nodup_map hnodup hp (hmem a ha) hid
    exact ⟨jwt, hex⟩

variable {crates : KeyCrates} {stsUrl : String} {source : KeySource} {threshold : ℕ}

theorem ofExcept_eq_ok {x : Except ε α} {a : α} : Rust.ofExcept x = .ok a ↔ x = .ok a := by
  rcases x with e | a'
  · simp [Rust.ofExcept, fail]
  · simp [Rust.ofExcept]

theorem ofExcept_ne_panic {x : Except ε α} {p : Panic} : Rust.ofExcept x ≠ .error (.panic p) := by
  rcases x with e | a
  · simp [Rust.ofExcept, fail]
  · simp [Rust.ofExcept]

/-- The last part of the loading: the partners' secrets are read, and make the key handles. -/
theorem run_readShare {gcsToken : String} {accesses : List PartnerAccess}
    {r : Except (Abort LoadError) LoadedKeys}
    (h : Run (do
      let read ← keyCall (.readFhePriv gcsToken source.publicBucket source.manifestObject accesses
        threshold source.shareVersion)
      let share ← KeyTask.ofExcept (mapErr .reconstruct read)
      KeyTask.ofExcept (Rust.ofExcept (assemble crates share)) :
        KeyTask (Abort LoadError) LoadedKeys).run tr r) :
    ∃ read, tr = [⟨.readFhePriv gcsToken source.publicBucket source.manifestObject accesses
        threshold source.shareVersion, read⟩]
      ∧ (∀ p, r ≠ .error (.panic p))
      ∧ ∀ loaded, r = .ok loaded → ∃ share, read = .ok share
        ∧ assemble crates share = .ok loaded := by
  obtain ⟨read, tr', rfl, h₁⟩ := run_keyCallBind.1 h
  refine ⟨read, ?_⟩
  rcases read with e | share
  · rcases run_exceptBind.1 h₁ with ⟨e', rfl, h₂⟩ | ⟨tr₁, tr₂, share, rfl, h₂, -⟩
    · obtain ⟨rfl, he⟩ := run_ofExcept.1 h₂
      cases he
      exact ⟨rfl, by simp, by simp⟩
    · obtain ⟨-, hs⟩ := run_ofExcept.1 h₂
      cases hs
  · rcases run_exceptBind.1 h₁ with ⟨e', -, h₂⟩ | ⟨tr₁, tr₂, share', rfl, h₂, h₃⟩
    · obtain ⟨-, he⟩ := run_ofExcept.1 h₂
      cases he
    · obtain ⟨rfl, hs⟩ := run_ofExcept.1 h₂
      cases hs
      obtain ⟨rfl, rfl⟩ := run_ofExcept.1 h₃
      exact ⟨rfl, fun _ => ofExcept_ne_panic,
        fun loaded hl => ⟨share, rfl, ofExcept_eq_ok.1 hl⟩⟩

theorem signerKeyLen_of_assemble {share : FhePrivShare} {loaded : LoadedKeys}
    (h : assemble crates share = .ok loaded) : share.decryptSignerPriv.length = signerKeyLen := by
  by_contra hne
  rw [assemble, if_pos hne] at h
  cases h

/-- The loading never panics. It reads the partners' secrets at most once, last, with the baked
sources, version and threshold, and with each partner's own token: no partner's token is offered
for another's project, and none is asked for with another's attestation. The keys it gives are
those of the share it read. -/
theorem federation_isolated (crates : KeyCrates) (stsUrl : String) (source : KeySource)
    (threshold : ℕ) {tr : Trace keySig} {r : Except (Abort LoadError) LoadedKeys}
    (h : Run (loadKeys crates stsUrl source threshold).run tr r) :
    (∀ p, r ≠ .error (.panic p))
    ∧ (tr = [] ∨ ∃ partners trP trR failed, source.partnerRefs = .ok partners ∧ tr = trP ++ trR
      ∧ OwnAudience crates.json (endpoints stsUrl) partners trP
      ∧ (trR.map (·.1.stage) = [.metadata] ∨ trR.map (·.1.stage) = [.metadata, .read])
      ∧ ∀ gcsToken bucket object accesses n version read,
        (⟨.readFhePriv gcsToken bucket object accesses n version, read⟩ : Event keySig) ∈ tr →
        bucket = source.publicBucket ∧ object = source.manifestObject ∧ n = threshold
          ∧ version = source.shareVersion
          ∧ Accesses crates.json (endpoints stsUrl) partners trP accesses failed)
    ∧ ∀ loaded, r = .ok loaded → ∃ trH gcsToken bucket object accesses n version share,
      tr = trH ++ [⟨.readFhePriv gcsToken bucket object accesses n version, .ok share⟩]
        ∧ share.decryptSignerPriv.length = signerKeyLen ∧ assemble crates share = .ok loaded := by
  unfold loadKeys at h
  rcases run_exceptBind.1 h with ⟨e, rfl, h₁⟩ | ⟨tr₁, tr₂, partners, rfl, h₁, h₂⟩
  · obtain ⟨rfl, he⟩ := run_ofExcept.1 h₁
    refine ⟨fun p hp => ?_, .inl rfl, by simp⟩
    cases hp
    rcases hs : source.partnerRefs with msg | partners
    all_goals rw [hs] at he; cases he
  obtain ⟨rfl, hpartners⟩ := run_ofExcept.1 h₁
  have hsource : source.partnerRefs = .ok partners := by
    rcases hs : source.partnerRefs with msg | partners'
    all_goals rw [hs] at hpartners; cases hpartners
    rfl
  rw [List.nil_append]
  obtain ⟨trP, trR, pair, rfl, h₃, h₄⟩ := run_liftBind.1 h₂
  obtain ⟨tokens, failed, rfl, hfed⟩ := run_loadPartnerTokens h₃
  simp only [List.nil_append] at h₄
  have hown := hfed.ownAudience
  have hnotP : ∀ e : Event keySig, e.1.stage = .read → e ∉ trP := by
    intro e hstage he
    rcases hfed.stage e he with h | h
    all_goals rw [hstage] at h; cases h
  obtain ⟨x, tr₃, rfl, h₅⟩ := run_keyCallBind.1 h₄
  rcases run_awaitedBind.1 h₅ with ⟨e, he, rfl, rfl⟩ | ⟨gcsToken, rfl, h₆⟩
  · refine ⟨?_, .inr ⟨partners, trP, _, failed, hsource, rfl, hown, .inl rfl, ?_⟩, by simp⟩
    · rintro p hp
      cases hp
      rcases x with a | msg | _
      all_goals cases he
    · intro gcsToken bucket object accesses n version read hmem
      rcases List.mem_append.1 hmem with hmem | hmem
      · exact absurd hmem (hnotP _ rfl)
      · simp at hmem
  obtain ⟨accesses, hpair, rfl, hmem⟩ := pairTokens_ok fun t ht =>
    let ⟨p, hp, hid, _⟩ := hfed.minted ht
    ⟨p, hp, hid⟩
  rw [hpair] at h₆
  rcases run_exceptBind.1 h₆ with ⟨e, -, h₇⟩ | ⟨tr₄, tr₅, accesses', rfl, h₇, h₈⟩
  · obtain ⟨-, he⟩ := run_ofExcept.1 h₇
    cases he
  obtain ⟨rfl, ha⟩ := run_ofExcept.1 h₇
  cases ha
  obtain ⟨read, rfl, hpanic, hloaded⟩ := run_readShare h₈
  refine ⟨hpanic, .inr ⟨partners, trP, _, failed, hsource, rfl, hown, .inr rfl, ?_⟩, ?_⟩
  · intro gcsToken' bucket object accesses' n version read' hread
    rcases List.mem_append.1 hread with hread | hread
    · exact absurd hread (hnotP _ rfl)
    · simp only [List.nil_append, List.mem_cons, Sigma.mk.injEq, reduceCtorEq, false_and, false_or,
        List.not_mem_nil, or_false, KeyOp.readFhePriv.injEq] at hread
      obtain ⟨⟨-, rfl, rfl, rfl, rfl, rfl⟩, -⟩ := hread
      exact ⟨rfl, rfl, rfl, rfl, hfed.accesses hmem⟩
  · intro loaded hl
    obtain ⟨share, rfl, hassemble⟩ := hloaded loaded hl
    exact ⟨trP ++ [⟨.metadataToken, .ok gcsToken⟩], gcsToken, source.publicBucket,
      source.manifestObject, accesses, threshold, source.shareVersion, share, by simp,
      signerKeyLen_of_assemble hassemble, hassemble⟩

/-! ## A loading that one partner fails -/

/-- `HTTP/1.1 200 OK`, a blank line, and `jwt`. -/
def sampleAttested : List UInt8 :=
  [72, 84, 84, 80, 47, 49, 46, 49, 32, 50, 48, 48, 32, 79, 75, 13, 10, 13, 10, 106, 119, 116]

def sampleKeyCrates : KeyCrates where
  json := fun _ => []
  safeDeserialize := fun _ _ => .ok ⟨4, 4, .standard [1] (by decide)⟩
  fromSlice := fun _ => .ok ⟨⟨fun _ => .ok (⟨1, 1⟩, ⟨false, false⟩)⟩, .zero 65⟩
  keccak256 := fun _ => .zero 32

def samplePartner (id : String) : PartnerRef := ⟨id, "cofhe-tee-fhe-priv", id⟩

def sampleSource : KeySource := ⟨.ok [samplePartner "a", samplePartner "b"], "bucket", "object", "1"⟩

def sampleShare : FhePrivShare := ⟨[], List.replicate 32 1⟩

/-- The first partner's attestation takes too long, and the second's token reads its secret. -/
def sampleLoading : Trace keySig :=
  ⟨.connect (endpoints "sts").attestationSocket, .elapsed⟩ ::
    (attested (fun _ => []) (endpoints "sts").attestationSocket "b" sampleAttested ++
      [⟨.exchange "sts" "b" "jwt", .ok "bearer"⟩, ⟨.metadataToken, .ok "gcs"⟩,
        ⟨.readFhePriv "gcs" "bucket" "object" [⟨samplePartner "b", "bearer"⟩] 1 "1",
          .ok sampleShare⟩])

theorem sample_loading : ∃ loaded,
    Run (loadKeys sampleKeyCrates "sts" sampleSource 1).run sampleLoading (.ok loaded) := by
  exact ⟨_, .op (.op (.op (.op (.op (.op (.op (.refl _)))))))⟩

theorem federation_isolated_sample : ∃ (tr : Trace keySig) (loaded : LoadedKeys) (jwt : String),
    Run (loadKeys sampleKeyCrates "sts" sampleSource 1).run tr (.ok loaded)
      ∧ Exchanged sampleKeyCrates.json (endpoints "sts") tr (samplePartner "b") jwt
        (.ok "bearer") := by
  obtain ⟨loaded, hrun⟩ := sample_loading
  obtain ⟨-, hnil | ⟨partners, trP, trR, failed, hsource, htr, -, -, hread⟩, -⟩ :=
    federation_isolated sampleKeyCrates "sts" sampleSource 1 hrun
  · cases hnil
  · cases hsource
    obtain ⟨-, -, -, -, haccesses⟩ := hread "gcs" "bucket" "object" [⟨samplePartner "b", "bearer"⟩]
      1 "1" (.ok sampleShare) (by simp [sampleLoading, attested])
    obtain ⟨jwt, hex⟩ := haccesses.minted (by decide) _ (List.mem_singleton_self _)
    exact ⟨sampleLoading, loaded, jwt, hrun,
      hex.mono (htr ▸ (List.prefix_append trP trR).isInfix)⟩

end Teecryptor.Keys
