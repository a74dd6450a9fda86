import QuantForge.MarketData.WsConnection

/-! What the handler of `market_data/upstox_ws_handler.cpp` does in a whole run, against the order
in which a connection is made, lost and made again. -/
namespace QuantForge

open Library

inductive TraceStage where
  | fresh
  | authorizing
  | resolving (host : Str)
  | connecting (host : Str)
  | tlsHandshake (host : Str)
  | wsHandshake
  | established
  | waiting
  deriving DecidableEq

/-- `waits` are the waits since a connection was last established. -/
structure ConnectionTrace where
  stage : TraceStage := .fresh
  waits : Nat := 0

namespace ConnectionTrace

/-- The order of a connection: an action out of turn is refused. A wait is twice as long as the one
before it, up to a minute. -/
def next (t : ConnectionTrace) : WsAction → Option ConnectionTrace
  | .authorize =>
      if t.stage = .fresh ∨ t.stage = .waiting then some { t with stage := .authorizing } else none
  | .resolve host port =>
      if t.stage = .authorizing ∧ host ≠ [] ∧ port = "443".toList then
        some { t with stage := .resolving host }
      else none
  | .connect =>
      match t.stage with
      | .resolving host => some { t with stage := .connecting host }
      | _ => none
  | .tlsHandshake host =>
      if t.stage = .connecting host then some { t with stage := .tlsHandshake host } else none
  | .wsHandshake host path =>
      if t.stage = .tlsHandshake host ∧ path.head? = some '/' then
        some { t with stage := .wsHandshake }
      else none
  | .setConnected =>
      if t.stage = .wsHandshake then some { stage := .established, waits := 0 } else none
  | .subscription _ | .read | .close => if t.stage = .established then some t else none
  | .armTimer delayS =>
      if t.stage ≠ .fresh ∧ t.stage ≠ .waiting ∧ delayS = min (2 ^ t.waits) maxReconnectDelayS then
        some { stage := .waiting, waits := t.waits + 1 }
      else none

def follow (actions : List WsAction) : Option ConnectionTrace := actions.foldlM next {}

theorem follow_snoc {actions : List WsAction} {action : WsAction} {t t' : ConnectionTrace}
    (h : follow actions = some t) (hnext : t.next action = some t') :
    follow (actions ++ [action]) = some t' := by
  rw [follow] at h ⊢
  rw [List.foldlM_append, h]
  simp [hnext]

end ConnectionTrace

inductive WsCall where
  | event (event : WsEvent)
  | subscribe (keys : List Str) (mode : Str)
  | unsubscribe (keys : List Str)
  | stop

namespace WsConnection

variable (hash : Str → Nat) (parse : List UInt8 → Option (List (Str × FeedMsg)))

def subscribe (c : WsConnection) (keys : List Str) (mode : Str) : WsConnection :=
  let c := { c with handler := c.handler.subscribe hash keys mode }
  if c.connected then c.doSendSubscription else c

def unsubscribe (c : WsConnection) (keys : List Str) : WsConnection :=
  { c with handler := c.handler.unsubscribe hash keys }

def call (c : WsConnection) : WsCall → WsConnection
  | .event event => step hash parse c event
  | .subscribe keys mode => c.subscribe hash keys mode
  | .unsubscribe keys => c.unsubscribe hash keys
  | .stop => c.stop

def Fits (c : WsConnection) (stage : TraceStage) : Prop :=
  match c.phase with
  | .idle => c.stopped = true
  | .authorizing => stage = .authorizing
  | .resolving =>
      stage = .resolving c.wssHost ∧ c.wssPath.head? = some '/'
  | .connecting =>
      stage = .connecting c.wssHost ∧ c.wssPath.head? = some '/' ∧ c.hasStream = true
  | .tlsHandshake =>
      stage = .tlsHandshake c.wssHost ∧ c.wssPath.head? = some '/' ∧ c.hasStream = true
  | .wsHandshake => stage = .wsHandshake ∧ c.hasStream = true
  | .upgraded | .reading | .handling _ => c.connected = true
  | .arming => c.connected = false ∧ stage ≠ .fresh ∧ stage ≠ .waiting
  | .waiting | .expired => stage = .waiting
  | .cancelled => c.stopped = true

/-- The actions so far are in order, and the connection stands where they lead. -/
structure InTurn (c : WsConnection) (t : ConnectionTrace) : Prop where
  followed : ConnectionTrace.follow c.actions = some t
  delay : c.reconnectDelayS = min (2 ^ t.waits) maxReconnectDelayS
  connected : c.connected = true → t.stage = .established ∧ c.hasStream = true
  fits : c.Fits t.stage

variable {hash parse} {c : WsConnection} {t t' : ConnectionTrace}

theorem matchWssUrl_spec {text host path : Str} (h : matchWssUrl text = some (host, path)) :
    host ≠ [] ∧ path.head? = some '/' := by
  unfold matchWssUrl at h
  split at h
  · dsimp only at h
    split at h
    · rename_i hfound
      obtain ⟨rfl, rfl⟩ := Prod.mk.inj (Option.some.inj h)
      refine ⟨hfound.1, ?_⟩
      have hhead := List.head_dropWhile_not (fun c => decide (c ≠ '/')) hfound.2.1
      rw [List.head?_eq_some_head hfound.2.1]
      simpa using hhead
    · cases h
  · cases h

theorem searchWssUrl_spec {text host path : Str} (h : searchWssUrl text = some (host, path)) :
    host ≠ [] ∧ path.head? = some '/' := by
  induction text with
  | nil => cases h
  | cons c text ih =>
      rw [searchWssUrl] at h
      cases hmatch : matchWssUrl (c :: text) with
      | none =>
          rw [hmatch] at h
          exact ih h
      | some found =>
          rw [hmatch] at h
          obtain rfl := Option.some.inj h
          exact matchWssUrl_spec hmatch

theorem delay_next (waits : Nat) : min (min (2 ^ waits) maxReconnectDelayS * 2) maxReconnectDelayS =
    min (2 ^ (waits + 1)) maxReconnectDelayS := by
  rw [pow_succ]
  unfold maxReconnectDelayS
  omega

theorem inTurn_perform {action : WsAction} {phase : WsPhase} (h : c.InTurn t)
    (hnext : t.next action = some t') (hwaits : t'.waits = t.waits)
    (hconnected : c.connected = true → t'.stage = .established)
    (hfits : (c.perform action phase).Fits t'.stage) : (c.perform action phase).InTurn t' where
  followed := ConnectionTrace.follow_snoc h.followed hnext
  delay := by
    rw [hwaits]
    exact h.delay
  connected hup := ⟨hconnected hup, (h.connected hup).2⟩
  fits := hfits

theorem not_connected (h : c.InTurn t) (hstage : t.stage ≠ .established) : c.connected = false :=
  Bool.eq_false_iff.mpr fun hup => hstage (h.connected hup).1

theorem inTurn_scheduleReconnect (h : c.InTurn t) (hfresh : t.stage ≠ .fresh)
    (hwaiting : t.stage ≠ .waiting) : c.scheduleReconnect.InTurn t := by
  unfold scheduleReconnect
  split
  · rename_i hstopped
    exact ⟨h.followed, h.delay, h.connected, hstopped⟩
  · exact ⟨h.followed, h.delay, nofun, rfl, hfresh, hwaiting⟩

theorem InTurn.of_fits {d : WsConnection} (h : c.InTurn t) (hactions : d.actions = c.actions)
    (hdelay : d.reconnectDelayS = c.reconnectDelayS)
    (hconnected : d.connected = true → c.connected = true)
    (hstream : d.hasStream = c.hasStream) (hfits : d.Fits t.stage) : d.InTurn t where
  followed := by
    rw [hactions]
    exact h.followed
  delay := hdelay.trans h.delay
  connected hup := by
    rw [hstream]
    exact h.connected (hconnected hup)
  fits := hfits

theorem inTurn_authorized (h : c.InTurn t) (hphase : c.phase = .authorizing) (url : Str) :
    ∃ t', (c.authorized url).InTurn t' := by
  have hstage : t.stage = .authorizing := by
    have hfits := h.fits
    rwa [Fits, hphase] at hfits
  have hfresh : t.stage ≠ .fresh := hstage ▸ nofun
  have hwaiting : t.stage ≠ .waiting := hstage ▸ nofun
  have hurl : ({ c with wssUrl := url } : WsConnection).InTurn t :=
    h.of_fits rfl rfl id rfl (by rw [Fits, hphase]; exact hstage)
  unfold authorized
  dsimp only
  split
  · exact ⟨t, inTurn_scheduleReconnect hurl hfresh hwaiting⟩
  · split
    · exact ⟨t, inTurn_scheduleReconnect hurl hfresh hwaiting⟩
    · rename_i host path hsearch
      obtain ⟨hhost, hpath⟩ := searchWssUrl_spec hsearch
      have hnamed : ({ c with
          wssUrl := url, wssHost := host, wssPath := path, wssPort := "443".toList } :
          WsConnection).InTurn t :=
        h.of_fits rfl rfl id rfl (by rw [Fits, hphase]; exact hstage)
      refine ⟨{ t with stage := .resolving host }, inTurn_perform hnamed ?_ rfl ?_ ⟨rfl, hpath⟩⟩
      · exact if_pos ⟨hstage, hhost, rfl⟩
      · intro hup
        rw [not_connected h (hstage ▸ nofun)] at hup
        cases hup

theorem inTurn_armTimer (h : c.InTurn t) (hphase : c.phase = .arming) :
    ∃ t', c.armTimer.InTurn t' := by
  have hfits := h.fits
  rw [Fits, hphase] at hfits
  obtain ⟨hdown, hfresh, hwaiting⟩ := hfits
  refine ⟨{ stage := .waiting, waits := t.waits + 1 }, ?_, ?_, ?_, rfl⟩
  · exact ConnectionTrace.follow_snoc h.followed (if_pos ⟨hfresh, hwaiting, h.delay⟩)
  · change min (c.reconnectDelayS * 2) maxReconnectDelayS = _
    rw [h.delay]
    exact delay_next t.waits
  · intro hup
    exact absurd (hdown.symm.trans hup) nofun

theorem inTurn_doReconnect (h : c.InTurn t) (hphase : c.phase = .expired) :
    ∃ t', c.doReconnect.InTurn t' := by
  have hstage : t.stage = .waiting := by
    have hfits := h.fits
    rwa [Fits, hphase] at hfits
  have hdown := not_connected h (hstage ▸ nofun)
  refine ⟨{ t with stage := .authorizing }, ?_, h.delay, ?_, rfl⟩
  · exact ConnectionTrace.follow_snoc h.followed (if_pos (.inr hstage))
  · intro hup
    exact absurd (hdown.symm.trans hup) nofun

theorem inTurn_doConnect (h : c.InTurn t) (hphase : c.phase = .resolving) :
    ∃ t', c.doConnect.InTurn t' := by
  have hfits := h.fits
  rw [Fits, hphase] at hfits
  obtain ⟨hstage, hpath⟩ := hfits
  have hdown := not_connected h (hstage ▸ nofun)
  refine ⟨{ t with stage := .connecting c.wssHost }, ?_, h.delay, ?_, rfl, hpath, rfl⟩
  · refine ConnectionTrace.follow_snoc h.followed ?_
    rw [ConnectionTrace.next, hstage]
  · intro hup
    exact absurd (hdown.symm.trans hup) nofun

theorem inTurn_doSslHandshake (h : c.InTurn t) (hphase : c.phase = .connecting) (sni : Bool) :
    ∃ t', (c.doSslHandshake sni).InTurn t' := by
  have hfits := h.fits
  rw [Fits, hphase] at hfits
  obtain ⟨hstage, hpath, hstream⟩ := hfits
  have hdown := not_connected h (hstage ▸ nofun)
  unfold doSslHandshake
  split
  · refine ⟨{ t with stage := .tlsHandshake c.wssHost }, inTurn_perform h (if_pos hstage) rfl ?_
      ⟨rfl, hpath, hstream⟩⟩
    intro hup
    exact absurd (hdown.symm.trans hup) nofun
  · exact ⟨t, inTurn_scheduleReconnect h (hstage ▸ nofun) (hstage ▸ nofun)⟩

theorem inTurn_doWsHandshake (h : c.InTurn t) (hphase : c.phase = .tlsHandshake) :
    ∃ t', c.doWsHandshake.InTurn t' := by
  have hfits := h.fits
  rw [Fits, hphase] at hfits
  obtain ⟨hstage, hpath, hstream⟩ := hfits
  have hdown := not_connected h (hstage ▸ nofun)
  refine ⟨{ t with stage := .wsHandshake }, inTurn_perform h (if_pos ⟨hstage, hpath⟩) rfl ?_
    ⟨rfl, hstream⟩⟩
  intro hup
  exact absurd (hdown.symm.trans hup) nofun

theorem inTurn_setConnected (h : c.InTurn t) (hphase : c.phase = .wsHandshake) :
    ∃ t', c.setConnected.InTurn t' := by
  have hfits := h.fits
  rw [Fits, hphase] at hfits
  obtain ⟨hstage, hstream⟩ := hfits
  refine ⟨{ stage := .established, waits := 0 }, ?_, rfl, fun _ => ⟨rfl, hstream⟩, rfl⟩
  exact ConnectionTrace.follow_snoc h.followed (if_pos hstage)

theorem inTurn_doSendSubscription (h : c.InTurn t) (hup : c.connected = true) :
    c.doSendSubscription.InTurn t := by
  have hstage := (h.connected hup).1
  exact inTurn_perform h (if_pos hstage) rfl (fun _ => hstage) h.fits

theorem inTurn_doRead (h : c.InTurn t) (hup : c.connected = true) : c.doRead.InTurn t := by
  have hstage := (h.connected hup).1
  exact inTurn_perform h (if_pos hstage) rfl (fun _ => hstage) hup

theorem inTurn_upgraded (h : c.InTurn t) (hup : c.connected = true) : c.upgraded.InTurn t := by
  unfold upgraded
  split
  · exact inTurn_doRead (inTurn_doSendSubscription h hup) hup
  · exact inTurn_doRead h hup

theorem inTurn_handle (h : c.InTurn t) (hup : c.connected = true) (read : WsRead) :
    (c.handle hash parse read).InTurn t := by
  have hstage := (h.connected hup).1
  cases read with
  | closed | failed =>
      unfold handle scheduleReconnect
      dsimp only
      split
      · rename_i hstopped
        exact ⟨h.followed, h.delay, nofun, hstopped⟩
      · exact ⟨h.followed, h.delay, nofun, rfl, hstage ▸ nofun, hstage ▸ nofun⟩
  | frame data recvTsNs =>
      have hdecoded : ({ c with
          handler := c.handler.decodeProtobufFrame hash parse data recvTsNs } :
          WsConnection).InTurn t := h.of_fits rfl rfl id rfl h.fits
      exact inTurn_doRead hdecoded hup

theorem inTurn_of_phase {phase : WsPhase} {next : WsConnection} (h : c.InTurn t)
    (hnext : c.phase = phase → ∃ t', next.InTurn t') :
    ∃ t', (if c.phase = phase then next else c).InTurn t' := by
  split
  · rename_i hphase
    exact hnext hphase
  · exact ⟨t, h⟩

theorem inTurn_ite {ok : Bool} {next : WsConnection} (h : c.InTurn t) (hfresh : t.stage ≠ .fresh)
    (hwaiting : t.stage ≠ .waiting) (hnext : ∃ t', next.InTurn t') :
    ∃ t', (if ok then next else c.scheduleReconnect).InTurn t' := by
  cases ok with
  | false => exact ⟨t, inTurn_scheduleReconnect h hfresh hwaiting⟩
  | true => exact hnext

theorem inTurn_step (h : c.InTurn t) (e : WsEvent) : ∃ t', (step hash parse c e).InTurn t' := by
  have hfits := h.fits
  cases e with
  | authorized url => exact inTurn_of_phase h fun hphase => inTurn_authorized h hphase url
  | resolved ok =>
      refine inTurn_of_phase h fun hphase => ?_
      rw [Fits, hphase] at hfits
      exact inTurn_ite h (hfits.1 ▸ nofun) (hfits.1 ▸ nofun) (inTurn_doConnect h hphase)
  | connected ok sni =>
      refine inTurn_of_phase h fun hphase => ?_
      rw [Fits, hphase] at hfits
      exact inTurn_ite h (hfits.1 ▸ nofun) (hfits.1 ▸ nofun) (inTurn_doSslHandshake h hphase sni)
  | tlsDone ok =>
      refine inTurn_of_phase h fun hphase => ?_
      rw [Fits, hphase] at hfits
      exact inTurn_ite h (hfits.1 ▸ nofun) (hfits.1 ▸ nofun) (inTurn_doWsHandshake h hphase)
  | upgraded ok =>
      refine inTurn_of_phase h fun hphase => ?_
      rw [Fits, hphase] at hfits
      exact inTurn_ite h (hfits.1 ▸ nofun) (hfits.1 ▸ nofun) (inTurn_setConnected h hphase)
  | goesOn =>
      unfold step
      dsimp only
      split
      · rename_i hphase
        rw [Fits, hphase] at hfits
        exact ⟨t, inTurn_upgraded h hfits⟩
      · rename_i read hphase
        rw [Fits, hphase] at hfits
        exact ⟨t, inTurn_handle h hfits read⟩
      · rename_i hphase
        exact inTurn_armTimer h hphase
      · exact ⟨t, h⟩
  | written ok => exact ⟨t, h⟩
  | readDone read =>
      refine inTurn_of_phase h fun hphase => ⟨t, h.of_fits rfl rfl id rfl ?_⟩
      rw [Fits, hphase] at hfits
      unfold Fits
      dsimp only
      by_cases hstopped : c.stopped = true
      · rw [if_pos hstopped]
        exact hstopped
      · rw [if_neg hstopped]
        exact hfits
  | timerExpires =>
      refine inTurn_of_phase h fun hphase => ⟨t, h.of_fits rfl rfl id rfl ?_⟩
      rw [Fits, hphase] at hfits
      exact hfits
  | timerFires =>
      unfold step
      dsimp only
      split
      · rename_i hphase
        exact inTurn_doReconnect h hphase
      · rename_i hphase
        rw [Fits, hphase] at hfits
        exact ⟨t, h.of_fits rfl rfl id rfl hfits⟩
      · exact ⟨t, h⟩

theorem inTurn_stop (h : c.InTurn t) : c.stop.InTurn t := by
  have hstopped : ({ c with
      stopped := true, phase := if c.phase = .waiting then .cancelled else c.phase } :
      WsConnection).InTurn t := by
    refine h.of_fits rfl rfl id rfl ?_
    have hfits := h.fits
    unfold Fits at hfits ⊢
    dsimp only
    by_cases hwaiting : c.phase = .waiting
    · rw [if_pos hwaiting]
    · rw [if_neg hwaiting]
      revert hfits
      cases c.phase <;> simp
  unfold stop
  dsimp only
  split
  · rename_i hopen
    have hup : c.connected = true := (Bool.and_eq_true_iff.mp hopen).2
    have hstage := (h.connected hup).1
    exact inTurn_perform hstopped (if_pos hstage) rfl (fun _ => hstage) hstopped.fits
  · exact hstopped

theorem inTurn_call (h : c.InTurn t) (call : WsCall) :
    ∃ t', (c.call hash parse call).InTurn t' := by
  cases call with
  | event e => exact inTurn_step h e
  | subscribe keys mode =>
      have hkeys : ({ c with handler := c.handler.subscribe hash keys mode } :
          WsConnection).InTurn t := h.of_fits rfl rfl id rfl h.fits
      refine ⟨t, ?_⟩
      unfold WsConnection.call subscribe
      dsimp only
      split
      · rename_i hup
        exact inTurn_doSendSubscription hkeys hup
      · exact hkeys
  | unsubscribe keys => exact ⟨t, h.of_fits rfl rfl id rfl h.fits⟩
  | stop => exact ⟨t, inTurn_stop h⟩

section Recovery

def Recovers (hash : Str → Nat) (parse : List UInt8 → Option (List (Str × FeedMsg)))
    (c : WsConnection) : Prop :=
  ∃ events, let d := Run.run (step hash parse) c events
    d.connected = true ∧ d.hasStream = true ∧ d.phase = .reading

theorem recovers_of_step (e : WsEvent) (h : Recovers hash parse (step hash parse c e)) :
    Recovers hash parse c := by
  obtain ⟨events, hrun⟩ := h
  exact ⟨e :: events, hrun⟩

theorem recovers_of_upgraded (hphase : c.phase = .upgraded) (hup : c.connected = true)
    (hstream : c.hasStream = true) : Recovers hash parse c := by
  refine ⟨[.goesOn], ?_⟩
  simp only [Run.run_cons, Run.run_nil, step, hphase, upgraded]
  split <;> exact ⟨hup, hstream, rfl⟩

theorem recovers_of_wsHandshake (hphase : c.phase = .wsHandshake) (hstream : c.hasStream = true) :
    Recovers hash parse c := by
  refine recovers_of_step (.upgraded true) ?_
  simp only [step, hphase, if_true]
  exact recovers_of_upgraded rfl rfl hstream

theorem recovers_of_tlsHandshake (hphase : c.phase = .tlsHandshake) (hstream : c.hasStream = true) :
    Recovers hash parse c := by
  refine recovers_of_step (.tlsDone true) ?_
  simp only [step, hphase, if_true]
  exact recovers_of_wsHandshake rfl hstream

theorem recovers_of_connecting (hphase : c.phase = .connecting) (hstream : c.hasStream = true) :
    Recovers hash parse c := by
  refine recovers_of_step (.connected true true) ?_
  simp only [step, hphase, if_true, doSslHandshake]
  exact recovers_of_tlsHandshake rfl hstream

theorem recovers_of_resolving (hphase : c.phase = .resolving) : Recovers hash parse c := by
  refine recovers_of_step (.resolved true) ?_
  simp only [step, hphase, if_true]
  exact recovers_of_connecting rfl rfl

theorem recovers_of_authorizing (hphase : c.phase = .authorizing) : Recovers hash parse c := by
  refine recovers_of_step (.authorized "wss://feed/".toList) ?_
  simp only [step, hphase, if_true]
  exact recovers_of_resolving rfl

theorem recovers_of_waiting (hphase : c.phase = .waiting) : Recovers hash parse c := by
  refine recovers_of_step .timerExpires (recovers_of_step .timerFires ?_)
  simp only [step, hphase, if_true]
  exact recovers_of_authorizing rfl

theorem recovers_of_inTurn (h : c.InTurn t) (hrunning : c.stopped = false) :
    Recovers hash parse c := by
  have hfits := h.fits
  unfold Fits at hfits
  cases hphase : c.phase with
  | idle | cancelled =>
      rw [hphase] at hfits
      exact absurd (hrunning.symm.trans hfits) nofun
  | authorizing => exact recovers_of_authorizing hphase
  | resolving => exact recovers_of_resolving hphase
  | connecting =>
      rw [hphase] at hfits
      exact recovers_of_connecting hphase hfits.2.2
  | tlsHandshake =>
      rw [hphase] at hfits
      exact recovers_of_tlsHandshake hphase hfits.2.2
  | wsHandshake =>
      rw [hphase] at hfits
      exact recovers_of_wsHandshake hphase hfits.2
  | upgraded =>
      rw [hphase] at hfits
      exact recovers_of_upgraded hphase hfits (h.connected hfits).2
  | reading =>
      rw [hphase] at hfits
      exact ⟨[], hfits, (h.connected hfits).2, hphase⟩
  | handling read =>
      rw [hphase] at hfits
      refine recovers_of_step .goesOn ?_
      simp only [step, hphase]
      cases read with
      | closed | failed =>
          refine recovers_of_step .goesOn ?_
          rw [handle, scheduleReconnect, if_neg (by simp [hrunning])]
          exact recovers_of_waiting rfl
      | frame data recvTsNs => exact ⟨[], hfits, (h.connected hfits).2, rfl⟩
  | arming =>
      refine recovers_of_step .goesOn ?_
      simp only [step, hphase]
      exact recovers_of_waiting rfl
  | waiting => exact recovers_of_waiting hphase
  | expired =>
      refine recovers_of_step .timerFires ?_
      simp only [step, hphase]
      exact recovers_of_authorizing rfl

end Recovery

/-- In every run the actions of the handler are in the order of a connection, with waits of 1, 2,
4, 8, 16, 32 and then 60 seconds; `connected_` is only set while there is a stream; and until
`stop` is called the handler can be connected again. -/
theorem connection_keeps_order (hash : Str → Nat)
    (parse : List UInt8 → Option (List (Str × FeedMsg))) (handler : UpstoxWsHandler)
    (calls : List WsCall) :
    let c := Run.run (call hash parse) (start { handler }) calls
    (ConnectionTrace.follow c.actions).isSome ∧ (c.connected = true → c.hasStream = true) ∧
      (c.stopped = false → Recovers hash parse c) := by
  have hstart : (start { handler }).InTurn { stage := .authorizing } :=
    ⟨rfl, rfl, nofun, rfl⟩
  have hcall : ∀ (c : WsConnection) (wsCall : WsCall), (∃ t, c.InTurn t) →
      ∃ t, (c.call hash parse wsCall).InTurn t := by
    rintro c wsCall ⟨t, h⟩
    exact inTurn_call h wsCall
  obtain ⟨t, h⟩ := Run.run_invariant (fun c => ∃ t, InTurn c t) hcall ⟨_, hstart⟩ calls
  exact ⟨Option.isSome_iff_exists.mpr ⟨t, h.followed⟩, fun hup => (h.connected hup).2,
    recovers_of_inTurn h⟩

end WsConnection

end QuantForge
