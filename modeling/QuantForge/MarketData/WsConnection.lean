import QuantForge.MarketData.Subscriptions

/-! The connection sequence of `market_data/upstox_ws_handler.cpp`. One step is the completion of
an asynchronous operation with its handler; a handler that `stop` can interrupt is cut in two. -/
namespace QuantForge

open Library

inductive WsRead where
  | closed
  | failed
  | frame (data : List UInt8) (recvTsNs : Nat)
  deriving DecidableEq

/-- The operation that is outstanding, or the handler that is running. The handler of the upgrade
is `upgraded` once it has set `connected_`, that of a read is `handling` once it has passed the
test of `stop_`, and `schedule_reconnect` is `arming` once it has passed its own. A timer that is
`expired` has its handler queued. -/
inductive WsPhase where
  | idle
  | authorizing
  | resolving
  | connecting
  | tlsHandshake
  | wsHandshake
  | upgraded
  | reading
  | handling (read : WsRead)
  | arming
  | waiting
  | expired
  | cancelled
  deriving DecidableEq

inductive WsAction where
  | authorize
  | resolve (host port : Str)
  | connect
  | tlsHandshake (host : Str)
  | wsHandshake (host path : Str)
  | setConnected
  | subscription (request : SubscriptionRequest)
  | read
  | armTimer (delayS : Nat)
  | close

def WsAction.advances : WsAction → Bool
  | .authorize | .resolve _ _ | .connect | .tlsHandshake _ | .wsHandshake _ _ => true
  | .setConnected | .subscription _ => true
  | .read | .armTimer _ | .close => false

/-- `authorized` has what `fetch_ws_url` returns, `connected` whether the server name can be set,
and `goesOn` is the rest of a handler. -/
inductive WsEvent where
  | authorized (url : Str)
  | resolved (ok : Bool)
  | connected (ok sni : Bool)
  | tlsDone (ok : Bool)
  | upgraded (ok : Bool)
  | goesOn
  | written (ok : Bool)
  | readDone (read : WsRead)
  | timerExpires
  | timerFires

/-- `actions` are what the handlers and `stop` have done so far, oldest first. -/
structure WsConnection where
  handler : UpstoxWsHandler
  phase : WsPhase := .idle
  hasStream : Bool := false
  connected : Bool := false
  stopped : Bool := false
  wssUrl : Str := []
  wssHost : Str := []
  wssPort : Str := []
  wssPath : Str := []
  reconnectDelayS : Nat := 1
  actions : List WsAction := []

def maxReconnectDelayS : Nat := 60

/-- A match of `wss://([^/]+)(/.*)$` that begins with the text. -/
def matchWssUrl (text : Str) : Option (Str × Str) :=
  if "wss://".toList <+: text then
    let rest := text.drop 6
    let host := rest.takeWhile (· ≠ '/')
    let path := rest.dropWhile (· ≠ '/')
    if host ≠ [] ∧ path ≠ [] ∧ '\n' ∉ path ∧ '\r' ∉ path then some (host, path) else none
  else none

def searchWssUrl : Str → Option (Str × Str)
  | [] => none
  | c :: text => matchWssUrl (c :: text) <|> searchWssUrl text

namespace WsConnection

variable (c : WsConnection)

def perform (action : WsAction) (phase : WsPhase) : WsConnection :=
  { c with phase := phase, actions := c.actions ++ [action] }

def scheduleReconnect : WsConnection :=
  if c.stopped then { c with phase := .idle }
  else { c with connected := false, phase := .arming }

def armTimer : WsConnection :=
  { c.perform (.armTimer c.reconnectDelayS) .waiting with
    reconnectDelayS := min (c.reconnectDelayS * 2) maxReconnectDelayS }

def doResolve : WsConnection := c.perform (.resolve c.wssHost c.wssPort) .resolving

def doAuthorize : WsConnection := c.perform .authorize .authorizing

def authorized (url : Str) : WsConnection :=
  let c := { c with wssUrl := url }
  if url = [] then c.scheduleReconnect
  else
    match searchWssUrl url with
    | none => c.scheduleReconnect
    | some (host, path) =>
        doResolve { c with wssHost := host, wssPath := path, wssPort := "443".toList }

def doConnect : WsConnection := { c.perform .connect .connecting with hasStream := true }

def doSslHandshake (sni : Bool) : WsConnection :=
  if sni then c.perform (.tlsHandshake c.wssHost) .tlsHandshake else c.scheduleReconnect

def doWsHandshake : WsConnection := c.perform (.wsHandshake c.wssHost c.wssPath) .wsHandshake

def doSendSubscription : WsConnection :=
  c.perform (.subscription
    { mode := c.handler.subscribeMode, instrumentKeys := c.handler.subscribedKeys }) c.phase

def doRead : WsConnection := c.perform .read .reading

def doReconnect : WsConnection := doAuthorize { c with hasStream := false }

def setConnected : WsConnection :=
  { c.perform .setConnected .upgraded with connected := true, reconnectDelayS := 1 }

def upgraded : WsConnection :=
  if c.handler.subscribedKeys ≠ [] then c.doSendSubscription.doRead else c.doRead

def handle (hash : Str → Nat) (parse : List UInt8 → Option (List (Str × FeedMsg))) :
    WsRead → WsConnection
  | .closed | .failed => scheduleReconnect { c with connected := false }
  | .frame data recvTsNs =>
      doRead { c with handler := c.handler.decodeProtobufFrame hash parse data recvTsNs }

/-- An event that is not of the phase does not happen. -/
def step (hash : Str → Nat) (parse : List UInt8 → Option (List (Str × FeedMsg)))
    (c : WsConnection) (e : WsEvent) : WsConnection :=
  match e with
  | .authorized url => if c.phase = .authorizing then c.authorized url else c
  | .resolved ok =>
      if c.phase = .resolving then if ok then c.doConnect else c.scheduleReconnect else c
  | .connected ok sni =>
      if c.phase = .connecting then if ok then c.doSslHandshake sni else c.scheduleReconnect else c
  | .tlsDone ok =>
      if c.phase = .tlsHandshake then if ok then c.doWsHandshake else c.scheduleReconnect else c
  | .upgraded ok =>
      if c.phase = .wsHandshake then if ok then c.setConnected else c.scheduleReconnect else c
  | .goesOn =>
      match c.phase with
      | .upgraded => c.upgraded
      | .handling read => c.handle hash parse read
      | .arming => c.armTimer
      | _ => c
  | .written _ => c
  | .readDone read =>
      if c.phase = .reading then { c with phase := if c.stopped then .idle else .handling read }
      else c
  | .timerExpires => if c.phase = .waiting then { c with phase := .expired } else c
  | .timerFires =>
      match c.phase with
      | .expired => c.doReconnect
      | .cancelled => { c with phase := .idle }
      | _ => c

def start : WsConnection := c.doAuthorize

/-- The wait of a timer that has not expired ends with an error. -/
def stop : WsConnection :=
  let c := { c with
    stopped := true
    phase := if c.phase = .waiting then .cancelled else c.phase }
  if c.hasStream && c.connected then c.perform .close c.phase else c

def advances : List WsAction := c.actions.filter WsAction.advances

/-- Since `c` the sequence has not advanced and `connected_` was not set. -/
structure HaltedSince (d : WsConnection) : Prop where
  advances : d.advances = c.advances
  connected : d.connected = true → c.connected = true

def Declines : WsEvent → Prop
  | .authorized url => c.phase = .authorizing → searchWssUrl url = none
  | .resolved ok => c.phase = .resolving → ok = false
  | .connected ok sni => c.phase = .connecting → (ok && sni) = false
  | .tlsDone ok => c.phase = .tlsHandshake → ok = false
  | .upgraded ok => c.phase = .wsHandshake → ok = false
  | .goesOn => c.phase = .upgraded → c.handler.subscribedKeys = []
  | .timerFires => c.phase ≠ .expired
  | .written _ | .readDone _ | .timerExpires => True

/-- Nothing is outstanding but a read, a wait that has not ended, or the rest of a handler that
leads to a read. -/
def Settled : Prop :=
  match c.phase with
  | .idle | .reading | .handling _ | .waiting | .cancelled => True
  | .upgraded => c.handler.subscribedKeys = []
  | .authorizing | .resolving | .connecting | .tlsHandshake | .wsHandshake => False
  | .arming | .expired => False

section Stop

variable {c} {hash : Str → Nat} {parse : List UInt8 → Option (List (Str × FeedMsg))}

theorem advances_perform_of_not {action : WsAction} (h : action.advances = false) (c : WsConnection)
    (phase : WsPhase) : (c.perform action phase).advances = c.advances := by
  unfold advances perform
  rw [List.filter_append, List.filter_cons_of_neg (by simp [h])]
  exact List.append_nil _

theorem advances_perform_ne {action : WsAction} (h : action.advances = true) (c : WsConnection)
    (phase : WsPhase) : (c.perform action phase).advances ≠ c.advances := by
  unfold advances perform
  rw [List.filter_append, List.filter_cons_of_pos h]
  exact fun heq => List.cons_ne_nil _ _ (List.append_right_eq_self.mp heq)

theorem advances_scheduleReconnect (c : WsConnection) :
    c.scheduleReconnect.advances = c.advances := by
  unfold scheduleReconnect
  split <;> rfl

theorem advances_doRead (c : WsConnection) : c.doRead.advances = c.advances :=
  advances_perform_of_not rfl c _

theorem advances_handle (c : WsConnection) (read : WsRead) :
    (c.handle hash parse read).advances = c.advances := by
  cases read with
  | closed | failed => exact advances_scheduleReconnect _
  | frame data recvTsNs => exact advances_doRead _

theorem advances_authorized (c : WsConnection) (url : Str) :
    (c.authorized url).advances = c.advances ↔ searchWssUrl url = none := by
  unfold authorized
  dsimp only
  split
  · rename_i hempty
    rw [hempty]
    exact iff_of_true (advances_scheduleReconnect _) rfl
  · cases hsearch : searchWssUrl url with
    | none => exact iff_of_true (advances_scheduleReconnect _) rfl
    | some found => exact iff_of_false (advances_perform_ne rfl _ _) nofun

theorem advances_upgraded (c : WsConnection) :
    c.upgraded.advances = c.advances ↔ c.handler.subscribedKeys = [] := by
  unfold upgraded
  split
  · rename_i hkeys
    rw [advances_doRead]
    exact iff_of_false (advances_perform_ne rfl _ _) hkeys
  · rename_i hkeys
    exact iff_of_true (advances_doRead c) (not_not.mp hkeys)

theorem advances_ite {ok : Bool} {next : WsConnection} (h : next.advances ≠ c.advances) :
    (if ok then next else c.scheduleReconnect).advances = c.advances ↔ ok = false := by
  cases ok with
  | false => exact iff_of_true (advances_scheduleReconnect c) rfl
  | true => exact iff_of_false h nofun

theorem advances_connected (c : WsConnection) (ok sni : Bool) :
    (if ok then c.doSslHandshake sni else c.scheduleReconnect).advances = c.advances ↔
      (ok && sni) = false := by
  cases ok with
  | false => exact iff_of_true (advances_scheduleReconnect c) rfl
  | true => exact advances_ite (advances_perform_ne rfl c _)

theorem advances_of_phase {phase : WsPhase} {next : WsConnection} {condition : Prop}
    (h : next.advances = c.advances ↔ condition) :
    (if c.phase = phase then next else c).advances = c.advances ↔
      (c.phase = phase → condition) := by
  split
  · rename_i hphase
    exact h.trans (imp_iff_right hphase).symm
  · rename_i hphase
    exact iff_of_true rfl fun heq => absurd heq hphase

/-- What one event does to the sequence. -/
theorem advances_step (c : WsConnection) (e : WsEvent) :
    (step hash parse c e).advances = c.advances ↔ c.Declines e := by
  cases e with
  | authorized url => exact advances_of_phase (advances_authorized c url)
  | resolved ok =>
      have hnext : c.doConnect.advances ≠ c.advances := advances_perform_ne rfl c .connecting
      exact advances_of_phase (advances_ite hnext)
  | connected ok sni => exact advances_of_phase (advances_connected c ok sni)
  | tlsDone ok =>
      have hnext : c.doWsHandshake.advances ≠ c.advances := advances_perform_ne rfl c .wsHandshake
      exact advances_of_phase (advances_ite hnext)
  | upgraded ok =>
      have hnext : c.setConnected.advances ≠ c.advances := advances_perform_ne rfl c .upgraded
      exact advances_of_phase (advances_ite hnext)
  | goesOn =>
      unfold step Declines
      dsimp only
      split
      · rename_i hphase
        exact (advances_upgraded c).trans (imp_iff_right hphase).symm
      · rename_i hphase
        exact iff_of_true (advances_handle c _) fun h => nomatch hphase.symm.trans h
      · rename_i hphase
        have harm : c.armTimer.advances = c.advances := advances_perform_of_not rfl c .waiting
        exact iff_of_true harm fun h => nomatch hphase.symm.trans h
      · rename_i hupgraded _ _
        exact iff_of_true rfl fun h => absurd h hupgraded
  | written ok => exact iff_of_true rfl trivial
  | readDone read =>
      refine iff_of_true ?_ trivial
      unfold step
      dsimp only
      split <;> rfl
  | timerExpires =>
      refine iff_of_true ?_ trivial
      unfold step
      dsimp only
      split <;> rfl
  | timerFires =>
      unfold step Declines
      dsimp only
      split
      · rename_i hphase
        exact iff_of_false (advances_perform_ne rfl _ .authorizing) fun h => h hphase
      · rename_i hphase
        exact iff_of_true rfl fun h => nomatch hphase.symm.trans h
      · rename_i hexpired _
        exact iff_of_true rfl hexpired

theorem connected_of_scheduleReconnect (h : c.scheduleReconnect.connected = true) :
    c.connected = true := by
  unfold scheduleReconnect at h
  split at h
  · exact h
  · cases h

theorem connected_of_authorized {url : Str} (h : (c.authorized url).connected = true) :
    c.connected = true := by
  unfold authorized at h
  dsimp only at h
  split at h
  · exact connected_of_scheduleReconnect (c := { c with wssUrl := url }) h
  · split at h
    · exact connected_of_scheduleReconnect (c := { c with wssUrl := url }) h
    · exact h

theorem connected_of_doSslHandshake {sni : Bool} (h : (c.doSslHandshake sni).connected = true) :
    c.connected = true := by
  unfold doSslHandshake at h
  split at h
  · exact h
  · exact connected_of_scheduleReconnect h

theorem connected_of_upgraded (h : c.upgraded.connected = true) : c.connected = true := by
  unfold upgraded at h
  split at h <;> exact h

theorem connected_of_handle {read : WsRead} (h : (c.handle hash parse read).connected = true) :
    c.connected = true := by
  cases read with
  | closed | failed => cases connected_of_scheduleReconnect h
  | frame data recvTsNs => exact h

theorem connected_of_step {e : WsEvent} (hdeclines : c.Declines e)
    (h : (step hash parse c e).connected = true) : c.connected = true := by
  unfold step at h
  cases e with
  | authorized url =>
      dsimp only at h
      split at h
      · exact connected_of_authorized h
      · exact h
  | resolved ok | tlsDone ok =>
      dsimp only at h
      split at h
      · split at h
        · exact h
        · exact connected_of_scheduleReconnect h
      · exact h
  | connected ok sni =>
      dsimp only at h
      split at h
      · split at h
        · exact connected_of_doSslHandshake h
        · exact connected_of_scheduleReconnect h
      · exact h
  | upgraded ok =>
      dsimp only at h
      split at h
      · rename_i hphase
        obtain rfl := hdeclines hphase
        exact connected_of_scheduleReconnect h
      · exact h
  | goesOn =>
      dsimp only at h
      split at h
      · exact connected_of_upgraded h
      · exact connected_of_handle h
      · exact h
      · exact h
  | written ok => exact h
  | readDone read | timerExpires | timerFires =>
      dsimp only at h
      split at h <;> exact h

theorem stop_eq (c : WsConnection) : c.stop.stopped = true ∧ c.stop.handler = c.handler ∧
    c.stop.phase = if c.phase = .waiting then .cancelled else c.phase := by
  unfold stop
  dsimp only
  split
  · exact ⟨rfl, rfl, rfl⟩
  · exact ⟨rfl, rfl, rfl⟩

theorem haltedSince_stop (c : WsConnection) : c.HaltedSince c.stop := by
  unfold stop
  dsimp only
  split
  · exact ⟨advances_perform_of_not rfl _ _, id⟩
  · exact ⟨rfl, id⟩

theorem haltedSince_step_iff {d : WsConnection} (h : c.HaltedSince d) (e : WsEvent) :
    c.HaltedSince (step hash parse d e) ↔ d.Declines e := by
  have hiff : (step hash parse d e).advances = d.advances ↔ d.Declines e := advances_step d e
  constructor
  · exact fun hstep => hiff.mp (hstep.advances.trans h.advances.symm)
  · intro hdeclines
    have hstep := hiff.mpr hdeclines
    refine ⟨hstep.trans h.advances, fun hconnected => h.connected ?_⟩
    exact connected_of_step hdeclines hconnected

/-- Stopped, and with no wait that could still end. -/
structure Final (c : WsConnection) : Prop where
  stopped : c.stopped = true
  settled : c.Settled
  notWaiting : c.phase ≠ .waiting

theorem settled_of_phase {d : WsConnection} (hphase : d.phase = c.phase)
    (hhandler : d.handler = c.handler) (h : c.Settled) : d.Settled := by
  unfold Settled
  rwa [hphase, hhandler]

theorem final_stop (h : c.Settled) : c.stop.Final := by
  obtain ⟨hstopped, hhandler, hphase⟩ := stop_eq c
  split at hphase
  · refine ⟨hstopped, ?_, ?_⟩
    · unfold Settled
      rw [hphase]
      trivial
    · rw [hphase]
      exact nofun
  · rename_i hwaiting
    exact ⟨hstopped, settled_of_phase hphase hhandler h, hphase ▸ hwaiting⟩

theorem final_of_phase (hstopped : c.stopped = true) (h : c.phase = .idle ∨ c.phase = .reading) :
    c.Final := by
  refine ⟨hstopped, ?_, ?_⟩
  · unfold Settled
    rcases h with hphase | hphase <;> rw [hphase] <;> trivial
  · rcases h with hphase | hphase <;> rw [hphase] <;> exact nofun

theorem final_scheduleReconnect (hstopped : c.stopped = true) : c.scheduleReconnect.Final := by
  rw [scheduleReconnect, if_pos hstopped]
  exact final_of_phase hstopped (.inl rfl)

theorem declines_of_final (h : c.Final) (e : WsEvent) : c.Declines e := by
  have hsettled := h.settled
  unfold Settled at hsettled
  cases e with
  | authorized _ | resolved _ | connected _ _ | tlsDone _ | upgraded _ | timerFires =>
      intro hphase
      rw [hphase] at hsettled
      exact False.elim hsettled
  | goesOn =>
      intro hphase
      rw [hphase] at hsettled
      exact hsettled
  | written _ | readDone _ | timerExpires => trivial

theorem final_step (h : c.Final) (e : WsEvent) : (step hash parse c e).Final := by
  have hsettled := h.settled
  unfold Settled at hsettled
  unfold step
  cases e with
  | authorized _ | resolved _ | connected _ _ | tlsDone _ | upgraded _ =>
      dsimp only
      split
      · rename_i hphase
        rw [hphase] at hsettled
        exact False.elim hsettled
      · exact h
  | goesOn =>
      dsimp only
      split
      · rename_i hphase
        rw [hphase] at hsettled
        rw [upgraded, if_neg (not_not.mpr hsettled)]
        exact final_of_phase h.stopped (.inr rfl)
      · rename_i read _
        cases read with
        | closed | failed => exact final_scheduleReconnect h.stopped
        | frame data recvTsNs => exact final_of_phase h.stopped (.inr rfl)
      · rename_i hphase
        rw [hphase] at hsettled
        exact False.elim hsettled
      · exact h
  | written _ => exact h
  | readDone read =>
      dsimp only
      split
      · exact final_of_phase h.stopped (.inl (if_pos h.stopped))
      · exact h
  | timerExpires => exact (if_neg h.notWaiting).symm ▸ h
  | timerFires =>
      dsimp only
      split
      · rename_i hphase
        rw [hphase] at hsettled
        exact False.elim hsettled
      · exact final_of_phase h.stopped (.inl rfl)
      · exact h

theorem along_declines_of_final (h : c.Final) (events : List WsEvent) :
    Run.Along (step hash parse) Declines c events := by
  have hany : Run.Along (step hash parse) (fun _ _ => True) c events :=
    Run.along_of_forall _ (fun _ => True) (fun _ _ _ => trivial) _ fun _ _ => trivial
  exact Run.along_of_along Final (fun _ e h _ => ⟨final_step h e, declines_of_final h e⟩) h hany

theorem settled_of_along_declines
    (h : ∀ events, Run.Along (step hash parse) Declines c.stop events) : c.Settled := by
  obtain ⟨-, hhandler, hstop⟩ := stop_eq c
  have hfirst : ∀ e, c.stop.Declines e := fun e => (h [e]).1
  unfold Settled
  cases hphase : c.phase with
  | idle | reading | handling _ | waiting | cancelled => trivial
  | authorizing =>
      rw [hphase] at hstop
      have hfound : searchWssUrl "wss://feed/".toList ≠ none := by decide
      exact hfound (hfirst (.authorized _) hstop)
  | resolving =>
      rw [hphase] at hstop
      exact Bool.noConfusion (hfirst (.resolved true) hstop)
  | connecting =>
      rw [hphase] at hstop
      exact Bool.noConfusion (hfirst (.connected true true) hstop)
  | tlsHandshake =>
      rw [hphase] at hstop
      exact Bool.noConfusion (hfirst (.tlsDone true) hstop)
  | wsHandshake =>
      rw [hphase] at hstop
      exact Bool.noConfusion (hfirst (.upgraded true) hstop)
  | upgraded =>
      rw [hphase] at hstop
      exact hhandler ▸ hfirst .goesOn hstop
  | expired =>
      rw [hphase] at hstop
      exact hfirst .timerFires hstop
  | arming =>
      rw [hphase] at hstop
      obtain ⟨-, -, hfires, -⟩ := h [.goesOn, .timerExpires, .timerFires]
      have harm : step hash parse c.stop .goesOn = c.stop.armTimer := by
        unfold step
        dsimp only
        rw [hstop]
        rfl
      rw [harm] at hfires
      exact hfires rfl

/-- After `stop` the sequence does not advance exactly when no event is the success of a step that
was outstanding, sends the subscription of an upgrade that had come through, or ends a wait that
was not cancelled. No order of the events can do so exactly when `stop` finds a read, a wait that
has not ended, or nothing. -/
theorem stop_final_iff (hash : Str → Nat) (parse : List UInt8 → Option (List (Str × FeedMsg)))
    (c : WsConnection) :
    (∀ events, Run.Always (step hash parse) c.HaltedSince c.stop events ↔
      Run.Along (step hash parse) Declines c.stop events) ∧
    ((∀ events, Run.Always (step hash parse) c.HaltedSince c.stop events) ↔ c.Settled) := by
  have hiff : ∀ events, Run.Always (step hash parse) c.HaltedSince c.stop events ↔
      Run.Along (step hash parse) Declines c.stop events := by
    intro events
    have hany : Run.Along (step hash parse) (fun _ _ => True) c.stop events :=
      Run.along_of_forall _ (fun _ => True) (fun _ _ _ => trivial) _ fun _ _ => trivial
    exact Run.always_iff_along (fun _ => True) (fun _ _ => True) (fun _ _ _ _ _ => trivial)
      (fun _ e _ hd _ => haltedSince_step_iff hd e) hany trivial (haltedSince_stop c)
  refine ⟨hiff, fun h => ?_, fun h events => ?_⟩
  · exact settled_of_along_declines fun events => (hiff events).mp (h events)
  · exact (hiff events).mpr (along_declines_of_final (final_stop h) events)

/-- A handler that is stopped while it resolves the host is connected in the end, and one that is
stopped once its timer has expired authorizes again. -/
theorem stop_not_final :
    let run := Run.run (step (fun _ => 0) fun _ => none)
    let started := start { handler := { tickQueue := MarketFeed.noTicks } }
    let resolving := run started [.authorized "wss://feed/v3".toList]
    let connected := run resolving.stop
      [.resolved true, .connected true true, .tlsDone true, .upgraded true]
    let expired := run started [.authorized [], .goesOn, .timerExpires]
    let authorizing := run expired.stop [.timerFires]
    (resolving.connected = false ∧ connected.stopped = true ∧ connected.connected = true) ∧
      ¬resolving.HaltedSince connected ∧ authorizing.stopped = true ∧
        authorizing.phase = .authorizing ∧ ¬expired.HaltedSince authorizing := by
  intro run started resolving connected expired authorizing
  have hconnected : resolving.connected = false ∧ connected.stopped = true ∧
      connected.connected = true := by decide +kernel
  have hauthorizing : authorizing.stopped = true ∧ authorizing.phase = .authorizing := by
    decide +kernel
  have hlength : authorizing.advances.length ≠ expired.advances.length := by decide +kernel
  refine ⟨hconnected, fun h => ?_, hauthorizing.1, hauthorizing.2, fun h => ?_⟩
  · exact Bool.eq_false_iff.mp hconnected.1 (h.connected hconnected.2.2)
  · exact hlength (congrArg List.length h.advances)

end Stop

end WsConnection

end QuantForge
