import CourtKernel.RootCourt.CourtImages
import CourtKernel.RootCourt.Object
import CourtKernel.Hosted.Root

/-!
# Revocation between two courtlets

Reference model of `run_demo` of `crates/root-court/src/courtlet.rs` as a machine: after its set-up,
any interleaving of entries into the app image, entries into the net image and the revoke step.
Allocation and loading are `CourtKernel.RootCourt.Courtlet`; here they have succeeded.

* Authority is kept in three places: the tables of Root Court, the boot block of each court, and one
  word of the shared ring.  The revoke step writes all three.
* `Standing` — what every interleaving keeps; from it, `app` is denied after a revoke step.
* `Twin` — the run of the hosted Root Court with the same sends and receives has the same queue, as
  long as nothing is revoked.
* `revocation_per_capability` — the app is denied from the revoke step on, the capability of `net`
  keeps its rights, and each entry of `net` before the revoke step takes the oldest packet as
  `HostedRoot::recv` does.
* `revoke_denies_net` — after the revoke step `net` is denied too, with a packet waiting: the ring has
  one revoked word for both ends.
-/

namespace CourtKernel

namespace RootCourt

open Object.RootCourt (spawnCourt mintCap revokeCap capRights Tables)

structure Demo where
  root : Object.RootCourt
  appCap : UInt64
  netCap : UInt64
  appBoot : BootInfo
  netBoot : BootInfo
  page : RingPage

namespace Demo

/-- The courts and capabilities of the demo: both court ids, then both capability ids. -/
def register : Prog Object.RootCourt (UInt64 × UInt64 × UInt64 × UInt64) := do
  let (appCourt, appObj) ← spawnCourt "app" "/court/app"
  let (netCourt, netObj) ← spawnCourt "net" "/court/net"
  let appCap ← mintCap appObj Object.RIGHT_SEND
  let netCap ← mintCap netObj Object.RIGHT_RECV
  pure (appCourt, netCourt, appCap, netCap)

/-- The ring that `run_demo` writes into a zeroed page. -/
def freshPage : RingPage := ⟨⟨RING_MAGIC, CAPACITY, 64, 0, 0, 0⟩, fun _ => 0⟩

/-- `run_demo` up to the first entry. -/
def setup (root : Object.RootCourt) : Except String Demo :=
  match register root with
  | .error e _ => .error e
  | .ok (appCourt, netCourt, appCap, netCap) root => .ok
    { root := root
      appCap := appCap
      netCap := netCap
      appBoot := ⟨BOOT_MAGIC, appCap, Object.RIGHT_SEND, RING_VA, appCourt⟩
      netBoot := ⟨BOOT_MAGIC, netCap, Object.RIGHT_RECV, RING_VA, netCourt⟩
      page := freshPage }

/-- The revoke step of `run_demo`. -/
def revoke (self : Demo) : Except String Unit × Demo :=
  match revokeCap self.appCap self.root with
  | .error e root => (.error e, { self with root := root })
  | .ok () root => (.ok (), { self with
      root := root
      appBoot := { self.appBoot with rights := 0 }
      page := { self.page with ring := { self.page.ring with revoked := 1 } } })

inductive Action where
  | app
  | net
  | revoke
  deriving DecidableEq

inductive Reply where
  | status (status : UInt64)
  | revoked (result : Except String Unit)

def step (self : Demo) : Action → Reply × Demo
  | .app =>
    let (status, page) := App.start self.appBoot self.page
    (.status status, { self with page := page })
  | .net =>
    let (status, page) := Net.start self.netBoot self.page
    (.status status, { self with page := page })
  | .revoke =>
    let (result, self) := self.revoke
    (.revoked result, self)

def machine (d : Demo) : Machine Demo Action Reply := ⟨d, step⟩

/-- The state after some actions. -/
abbrev after (d : Demo) (acts : List Action) : Demo := d.machine.run d acts

/-- The packet that a step sent: the one of an entry of `app` that says so. -/
def sentBy (_ : Demo) (act : Action) (reply : Reply) (_ : Demo) : List Payload :=
  match act, reply with
  | .app, .status status => if status = ST_SENT then [pkt] else []
  | _, _ => []

/-- An entry of `net` that advanced the consumer counter.  The status alone would not tell:
`ST_EMPTY` has the low byte of `ST_RECV`. -/
def takenBy (s : Demo) (act : Action) (_ : Reply) (s' : Demo) : List Action :=
  if act = .net ∧ s'.page.ring.consumer = s.page.ring.consumer + 1 then [act] else []

def sent (d : Demo) (acts : List Action) : List Payload := d.machine.collect sentBy d acts

def taken (d : Demo) (acts : List Action) : List Action := d.machine.collect takenBy d acts

/-- The packets that were sent and not consumed, oldest first. -/
def waiting (d : Demo) (acts : List Action) : List Payload :=
  (d.sent acts).drop (d.taken acts).length

/-! ## The corresponding run of the hosted Root Court -/

/-- Courts 1 and 2, a corridor with room for four packets, and one capability for each end. -/
def hostedSetup : List HostedRoot.Call :=
  [.createCourt "app", .createCourt "net",
    .createCorridor HostedRoot.PACKET_RX ⟨1⟩ ⟨2⟩ .sharedRing CAPACITY.toNat,
    .grantCorridorCap ⟨1⟩ HostedRoot.packetRx .SEND, .grantCorridorCap ⟨2⟩ HostedRoot.packetRx .RECV]

def Action.call : Action → HostedRoot.Call
  | .app => .send ⟨1⟩ ⟨2⟩ pkt
  | .net => .recv ⟨2⟩ ⟨3⟩
  | .revoke => .revoke ⟨2⟩

/-- The hosted Root Court after the same actions. -/
abbrev hosted (acts : List Action) : HostedRoot :=
  HostedRoot.after (hostedSetup ++ acts.map Action.call)

/-- The next entry of `net` takes the oldest packet or finds none, and so does `HostedRoot::recv`. -/
structure NetServed (d : Demo) (acts : List Action) : Prop where
  empty : d.waiting acts = [] →
    Net.start (d.after acts).netBoot (d.after acts).page = (ST_EMPTY, (d.after acts).page) ∧
      ((hosted acts).recv ⟨2⟩ ⟨3⟩).1 = .error .queueEmpty
  oldest : ∀ payload rest, d.waiting acts = payload :: rest →
    Net.start (d.after acts).netBoot (d.after acts).page = (recvStatus payload,
      { (d.after acts).page with
        ring := { (d.after acts).page.ring with
          consumer := (d.after acts).page.ring.consumer + 1 } }) ∧
      ((hosted acts).recv ⟨2⟩ ⟨3⟩).1 = .ok payload

/-! ## What every interleaving keeps -/

/-- The demo before (`gone = False`) and after a revoke step. -/
structure Standing (gone : Prop) (s : Demo) : Prop where
  netCap : capRights s.root s.netCap = some RIGHT_RECV
  appCap : (capRights s.root s.appCap).isSome
  apart : s.appCap ≠ s.netCap
  appMarked : Marked s.appBoot s.page
  netMarked : Marked s.netBoot s.page
  netRights : s.netBoot.rights = RIGHT_RECV
  live : ¬ gone → s.appBoot.rights = RIGHT_SEND ∧ s.page.ring.revoked = 0
  denied : gone → s.appBoot.rights = 0 ∧ s.page.ring.revoked = 1

/-- Both capabilities are in the tables, with different rights and so with different ids. -/
theorem register_spec {root : Object.RootCourt} (h : Tables root) :
    wp register (fun r root' => capRights root' r.2.2.2 = some RIGHT_RECV ∧
      capRights root' r.2.2.1 = some RIGHT_SEND) (fun _ _ => True) root := by
  have hspawn := fun name path => keeps_stays.1 (Object.RootCourt.ofCaps_tables.spawnCourt name path)
  rw [register, wp_bind]
  refine wp_mono (hspawn "app" "/court/app" root h) (fun app root₁ h₁ => ?_) fun _ _ _ => trivial
  rw [wp_bind]
  refine wp_mono (hspawn "net" "/court/net" root₁ h₁) (fun net root₂ h₂ => ?_) fun _ _ _ => trivial
  rw [wp_bind]
  refine wp_mono (Object.RootCourt.mint_spec app.2 Object.RIGHT_SEND) ?_ fun _ _ _ => trivial
  rintro appCap root₃ ⟨caps, hput, rfl, rfl⟩
  have h₃ := h₂.put hput
  rw [wp_bind]
  refine wp_mono (Object.RootCourt.mint_spec net.2 Object.RIGHT_RECV) ?_ fun _ _ _ => trivial
  rintro netCap root₄ ⟨caps', hput', rfl, rfl⟩
  have hnet := Object.RootCourt.capRights_mint h₃ hput'
  have happ := Object.RootCourt.capRights_mint h₂ hput
  have hne : root₂.nextCap + 1 ≠ root₂.nextCap + 1 + 1 := by
    intro heq
    have hsucc : (root₂.nextCap + 1 + 1).toNat = (root₂.nextCap + 1).toNat + 1 := h₃.succ_nextCap
    rw [← heq] at hsucc
    omega
  refine (wp_pure _).2 ⟨?_, ?_⟩
  · rw [hnet, if_pos rfl]
    rfl
  · rw [hnet, if_neg hne, happ, if_pos rfl]
    rfl

theorem setup_standing {root : Object.RootCourt} {d : Demo} (h : Tables root)
    (hd : setup root = .ok d) : Standing False d := by
  unfold setup at hd
  split at hd
  · cases hd
  · rename_i appCourt netCourt appCap netCap root' hreg
    obtain ⟨hnet, happ⟩ := wp_ok (register_spec h) hreg
    obtain rfl := Except.ok.inj hd
    refine ⟨hnet, ?_, ?_, ⟨rfl, rfl⟩, ⟨rfl, rfl⟩, rfl, fun _ => ⟨rfl, rfl⟩, fun hgone => hgone.elim⟩
    · exact Option.isSome_iff_exists.2 ⟨_, happ⟩
    · intro heq
      have hsame : some RIGHT_SEND = some RIGHT_RECV := happ.symm.trans ((congrArg _ heq).trans hnet)
      exact absurd hsame (by decide)

namespace Standing

variable {gone : Prop} {s : Demo}

/-- An entry changes the page, but neither its magic nor its revoked word. -/
theorem entry (h : Standing gone s) {page : RingPage}
    (hpage : page.ring.magic = s.page.ring.magic ∧ page.ring.revoked = s.page.ring.revoked) :
    Standing gone { s with page := page } where
  netCap := h.netCap
  appCap := h.appCap
  apart := h.apart
  appMarked := ⟨h.appMarked.boot, hpage.1.trans h.appMarked.ring⟩
  netMarked := ⟨h.netMarked.boot, hpage.1.trans h.netMarked.ring⟩
  netRights := h.netRights
  live := fun hlive => ⟨(h.live hlive).1, hpage.2.trans (h.live hlive).2⟩
  denied := fun hgone => ⟨(h.denied hgone).1, hpage.2.trans (h.denied hgone).2⟩

/-- The revoke step succeeds, and takes nothing from `net` in the tables of Root Court. -/
theorem revoke (h : Standing gone s) :
    s.revoke.1 = .ok () ∧ Standing True s.revoke.2 := by
  have hspec := @Object.RootCourt.revokeCap_spec s.root s.appCap
  unfold Demo.revoke
  split
  · rename_i e root hrun
    obtain ⟨-, -, hnone⟩ := wp_error hspec hrun
    have hsome := h.appCap
    rw [hnone] at hsome
    cases hsome
  · rename_i root hrun
    obtain ⟨caps, hcaps, rfl⟩ := wp_ok hspec hrun
    have hrights := Object.RootCourt.capRights_revise hcaps
    refine ⟨rfl, ?_, ?_, h.apart, ⟨h.appMarked.boot, h.appMarked.ring⟩,
      ⟨h.netMarked.boot, h.netMarked.ring⟩, h.netRights, fun hlive => ?_, fun _ => ?_⟩
    · rw [hrights, if_neg (Ne.symm h.apart)]
      exact h.netCap
    · rw [hrights, if_pos rfl]
      rfl
    · exact absurd trivial hlive
    · exact ⟨rfl, rfl⟩

theorem step (h : Standing gone s) (act : Action) :
    Standing (gone ∨ act = .revoke) (s.step act).2 := by
  cases act with
  | app =>
    have hsame : (gone ∨ Action.app = .revoke) = gone := by simp
    rw [hsame]
    exact h.entry (App.start_frame s.appBoot s.page)
  | net =>
    have hsame : (gone ∨ Action.net = .revoke) = gone := by simp
    rw [hsame]
    exact h.entry (Net.start_frame s.netBoot s.page)
  | revoke =>
    have hsame : (gone ∨ Action.revoke = .revoke) = True := by simp
    rw [hsame]
    exact h.revoke.2

end Standing

theorem after_standing {d : Demo} (h : Standing False d) (acts : List Action) :
    Standing (.revoke ∈ acts) (d.after acts) := by
  induction acts using List.reverseRecOn with
  | nil => simpa using h
  | append_singleton acts act ih =>
    have hmem : (Action.revoke ∈ acts ++ [act]) = (.revoke ∈ acts ∨ act = .revoke) := by
      simp [eq_comm]
    rw [hmem, after, Machine.run_concat]
    exact ih.step act

/-! ## The hosted run -/

/-- The hosted Root Court while nothing is revoked: as after its set-up, but for the queue. -/
structure Linked (h : HostedRoot) (q : List Payload) : Prop where
  courts : h.courts = (hosted []).courts
  cspaces : h.cspaces = (hosted []).cspaces
  capRegistry : h.capRegistry = (hosted []).capRegistry
  corridor : h.corridors.lookup ⟨1⟩ = some ⟨(⟨1⟩, ⟨2⟩), q, CAPACITY.toNat⟩

namespace Linked

variable {h : HostedRoot} {q : List Payload}

theorem init : Linked (hosted []) [] := ⟨rfl, rfl, rfl, by decide +kernel⟩

/-- The checks of `send` and `recv` see only what stays. -/
theorem permit (hl : Linked h q) (court : CourtId) (cap : CapId) (right : Rights) :
    h.permit court cap right = (hosted []).permit court cap right := by
  unfold HostedRoot.permit HostedRoot.requireRunningCourt HostedRoot.cspaceContains
  rw [hl.courts, hl.cspaces, hl.capRegistry]

/-- A change of the queue alone. -/
theorem requeue (hl : Linked h q) (q' : List Payload) (event : TraceEvent) :
    Linked ({ h with
      corridors := h.corridors.insert ⟨1⟩ ⟨(⟨1⟩, ⟨2⟩), q', CAPACITY.toNat⟩ }.push event) q' :=
  ⟨hl.courts, hl.cspaces, hl.capRegistry, Finmap.lookup_insert _⟩

theorem send (hl : Linked h q) :
    (4 ≤ q.length ∧ (h.send ⟨1⟩ ⟨2⟩ pkt).2 = h) ∨
      (q.length < 4 ∧ Linked (h.send ⟨1⟩ ⟨2⟩ pkt).2 (q ++ [pkt])) := by
  have hpermit : h.permit ⟨1⟩ ⟨2⟩ .SEND = .ok ⟨1⟩ := by
    rw [hl.permit]
    decide +kernel
  have hpeer : Corridor.hasPeerDown ⟨(⟨1⟩, ⟨2⟩), q, CAPACITY.toNat⟩ ⟨1⟩ h.courts = false := by
    rw [hl.courts]
    show Corridor.hasPeerDown ⟨(⟨1⟩, ⟨2⟩), [], CAPACITY.toNat⟩ ⟨1⟩ (hosted []).courts = false
    decide +kernel
  unfold HostedRoot.send
  simp only [hpermit, hl.corridor, hpeer, Bool.false_eq_true, if_false]
  by_cases hq : q.length ≥ CAPACITY.toNat
  · exact Or.inl ⟨hq, congrArg Prod.snd (if_pos hq)⟩
  · refine Or.inr ⟨Nat.lt_of_not_le hq, ?_⟩
    rw [if_neg hq]
    exact hl.requeue _ _

theorem recv_eq (hl : Linked h q) :
    h.recv ⟨2⟩ ⟨3⟩ = match q with
      | [] => (.error .queueEmpty, h)
      | payload :: rest => (.ok payload, { h with
          corridors := h.corridors.insert ⟨1⟩ ⟨(⟨1⟩, ⟨2⟩), rest, CAPACITY.toNat⟩ }.push
            (.received ⟨2⟩ ⟨1⟩ payload.length)) := by
  have hpermit : h.permit ⟨2⟩ ⟨3⟩ .RECV = .ok ⟨1⟩ := by
    rw [hl.permit]
    decide +kernel
  unfold HostedRoot.recv
  simp only [hpermit, hl.corridor]
  cases q <;> rfl

end Linked

/-- After `P` packets sent and `C` taken, the ring and the hosted Root Court hold the same packets. -/
structure Twin (s : Demo) (h : HostedRoot) (P C : Nat) (waiting : List Payload) : Prop where
  window : s.page.view.Window P C
  contents : s.page.view.contents P C = waiting
  linked : Linked h waiting

namespace Twin

variable {s : Demo} {h : HostedRoot} {P C : Nat} {waiting : List Payload}

/-- As many packets wait as the counters are apart. -/
theorem length_waiting (ht : Twin s h P C waiting) : waiting.length = P - C := by
  rw [← ht.contents, SharedRing.length_contents]

/-- An entry of `app` sends on both sides, or finds both queues full. -/
theorem app_cases (ht : Twin s h P C waiting) (hs : Standing False s) :
    (s.step .app = (.status ST_DENIED, s) ∧ (h.send ⟨1⟩ ⟨2⟩ pkt).2 = h) ∨
    ((s.step .app).1 = .status ST_SENT ∧
      Twin (s.step .app).2 (h.send ⟨1⟩ ⟨2⟩ pkt).2 (P + 1) C (waiting ++ [pkt])) := by
  obtain ⟨hrights, hlive⟩ := hs.live id
  have hright : s.appBoot.rights &&& RIGHT_SEND ≠ 0 := by
    rw [hrights]
    decide
  have hwait := ht.length_waiting
  rcases App.start_spec hs.appMarked hright hlive ht.window with ⟨hfull, hstart⟩ |
    ⟨hroom, page, hstart, -, hwin, hcont⟩
  · rcases ht.linked.send with ⟨-, hsend⟩ | ⟨hlt, -⟩
    · exact Or.inl ⟨by simp only [step, hstart], hsend⟩
    · omega
  · have hstep : s.step .app = (.status ST_SENT, { s with page := page }) := by
      simp only [step, hstart]
    rcases ht.linked.send with ⟨hge, -⟩ | ⟨-, hlinked⟩
    · omega
    · rw [hstep]
      exact Or.inr ⟨rfl, hwin, hcont.trans (congrArg (· ++ [pkt]) ht.contents), hlinked⟩

/-- An entry of `net` takes the oldest packet on both sides, or finds both queues empty. -/
theorem net_cases (ht : Twin s h P C waiting) (hs : Standing False s) :
    (waiting = [] ∧ Net.start s.netBoot s.page = (ST_EMPTY, s.page) ∧
      h.recv ⟨2⟩ ⟨3⟩ = (.error .queueEmpty, h)) ∨
    ∃ payload rest, waiting = payload :: rest ∧
      Net.start s.netBoot s.page = (recvStatus payload,
        { s.page with ring := { s.page.ring with consumer := s.page.ring.consumer + 1 } }) ∧
      (h.recv ⟨2⟩ ⟨3⟩).1 = .ok payload ∧
      Twin { s with page := { s.page with
          ring := { s.page.ring with consumer := s.page.ring.consumer + 1 } } }
        (h.recv ⟨2⟩ ⟨3⟩).2 P (C + 1) rest := by
  obtain ⟨-, hlive⟩ := hs.live id
  have hright : s.netBoot.rights &&& RIGHT_RECV ≠ 0 := by
    rw [hs.netRights]
    decide
  have hwait := ht.length_waiting
  rcases Net.start_spec hs.netMarked hright hlive ht.window with ⟨hempty, hstart⟩ |
    ⟨hlt, payload, page, hstart, rfl, hwin, hcont⟩
  · obtain rfl : waiting = [] := List.length_eq_zero_iff.1 (by omega)
    exact Or.inl ⟨rfl, hstart, ht.linked.recv_eq⟩
  · rw [ht.contents] at hcont
    subst hcont
    refine Or.inr ⟨payload, _, rfl, hstart, ?_, hwin, rfl, ?_⟩
    · rw [ht.linked.recv_eq]
    · rw [ht.linked.recv_eq]
      exact ht.linked.requeue _ _

/-- One action on both sides, with what it adds to the packets `S` sent and to the entries `T` that
took one. -/
theorem step {S : List Payload} {T : List Action}
    (ht : Twin s h S.length T.length (S.drop T.length)) (hs : Standing False s) {act : Action}
    (hact : act ≠ .revoke) :
    let S' := S ++ sentBy s act (s.step act).1 (s.step act).2
    let T' := T ++ takenBy s act (s.step act).1 (s.step act).2
    Twin (s.step act).2 (h.call act.call).2 S'.length T'.length (S'.drop T'.length) := by
  intro S' T'
  cases act with
  | app =>
    have hT : T' = T := List.append_nil T
    show Twin (s.step .app).2 (h.send ⟨1⟩ ⟨2⟩ pkt).2 _ _ _
    rcases ht.app_cases hs with ⟨hstep, hsend⟩ | ⟨hreply, htwin⟩
    · have hS : S' = S := by simp only [S', hstep]; exact List.append_nil S
      rw [hS, hT, hstep, hsend]
      exact ht
    · have hS : S' = S ++ [pkt] := by simp only [S', hreply]; rfl
      rw [hS, hT, List.length_append, List.drop_append_of_le_length ht.window.le]
      exact htwin
  | net =>
    have hS : S' = S := List.append_nil S
    show Twin (s.step .net).2 (h.recv ⟨2⟩ ⟨3⟩).2 _ _ _
    rcases ht.net_cases hs with ⟨-, hstart, hrecv⟩ | ⟨payload, rest, hrest, hstart, -, htwin⟩
    · have hstep : s.step .net = (.status ST_EMPTY, s) := by simp only [Demo.step, hstart]
      have hidle : ¬ s.page.ring.consumer = s.page.ring.consumer + 1 := by
        intro heq
        have hnat := congrArg UInt64.toNat heq
        rw [UInt64.toNat_add] at hnat
        have hone : (1 : UInt64).toNat = 1 := rfl
        omega
      have hT : T' = T := by simp [T', hstep, takenBy, hidle]
      rw [hS, hT, hstep, hrecv]
      exact ht
    · have hstep : s.step .net = (.status (recvStatus payload), { s with page := { s.page with
          ring := { s.page.ring with consumer := s.page.ring.consumer + 1 } } }) := by
        simp only [Demo.step, hstart]
      have hT : T' = T ++ [.net] := by simp [T', hstep, takenBy]
      have hdrop : S.drop (T.length + 1) = rest := by
        rw [← List.tail_drop, hrest, List.tail_cons]
      rw [hS, hT, List.length_append, List.length_singleton, hdrop, hstep]
      exact htwin
  | revoke => exact absurd rfl hact

end Twin

theorem setup_twin {root : Object.RootCourt} {d : Demo} (hd : setup root = .ok d) :
    Twin d (hosted []) 0 0 [] := by
  have hpage : d.page = freshPage := by
    unfold setup at hd
    split at hd
    · cases hd
    · obtain rfl := Except.ok.inj hd
      rfl
  have hfresh : SharedRing.Fresh freshPage.view := ⟨by decide, rfl, rfl⟩
  refine ⟨?_, rfl, Linked.init⟩
  rw [hpage]
  exact hfresh.window

/-- As long as nothing is revoked, the hosted run goes along. -/
theorem after_twin {root : Object.RootCourt} {d : Demo} (h : Tables root) (hd : setup root = .ok d)
    (acts : List Action) (hacts : .revoke ∉ acts) :
    Twin (d.after acts) (hosted acts) (d.sent acts).length (d.taken acts).length
      (d.waiting acts) := by
  induction acts using List.reverseRecOn with
  | nil => exact setup_twin hd
  | append_singleton acts act ih =>
    rw [List.mem_append, not_or, List.mem_singleton] at hacts
    have hs : Standing False (d.after acts) := by
      have hstand := after_standing (setup_standing h hd) acts
      rwa [eq_false hacts.1] at hstand
    have hhosted : hosted (acts ++ [act]) = ((hosted acts).call act.call).2 := by
      rw [hosted, List.map_append, ← List.append_assoc]
      exact HostedRoot.machine.run_concat _ _ _
    unfold waiting
    rw [sent, taken, Machine.collect_concat, Machine.collect_concat, after, Machine.run_concat, hhosted]
    exact (ih hacts.1).step hs (Ne.symm hacts.2)

/-! ## The law of revocation -/

/-- **Revocation of the app's capability.**  From the revoke step on every entry of `app` is denied
and changes nothing; the capability of `net` keeps its rights throughout; and an entry of `net` takes
the oldest packet, as in the hosted Root Court, exactly if no revoke step precedes it. -/
theorem revocation_per_capability {cs : List Object.RootCourt.Call} {d : Demo}
    (hd : setup (Object.RootCourt.after cs) = .ok d) (acts : List Action) :
    let s := d.after acts
    (.revoke ∈ acts → App.start s.appBoot s.page = (ST_DENIED, s.page)) ∧
      capRights s.root s.netCap = some RIGHT_RECV ∧
      (d.NetServed acts ↔ .revoke ∉ acts) := by
  have htab := Object.RootCourt.after_tables cs
  have hs := after_standing (setup_standing htab hd) acts
  refine ⟨fun hgone => ?_, hs.netCap, fun hserved hgone => ?_, fun hlive => ?_⟩
  · refine App.start_denied hs.appMarked (Or.inl ?_)
    rw [(hs.denied hgone).1]
    decide
  · have hrevoked : (d.after acts).page.ring.revoked ≠ 0 := by
      rw [(hs.denied hgone).2]
      decide
    have hdenied := Net.start_denied hs.netMarked (Or.inr hrevoked)
    cases hwaiting : d.waiting acts with
    | nil =>
      have hempty := (hserved.empty hwaiting).1
      rw [hdenied] at hempty
      have hstatus : ST_DENIED = ST_EMPTY := congrArg Prod.fst hempty
      exact absurd hstatus (by decide)
    | cons payload rest =>
      -- a packet that is taken moves the ring on
      have htaken := (hserved.oldest payload rest hwaiting).1
      rw [hdenied] at htaken
      have hmoved := congrArg (fun r => r.2.ring.consumer) htaken
      simp at hmoved
  · have ht := after_twin htab hd acts hlive
    rw [eq_false hlive] at hs
    rcases ht.net_cases hs with ⟨hnil, hstart, hrecv⟩ | ⟨payload, rest, hcons, hstart, hrecv, -⟩
    · refine ⟨fun _ => ⟨hstart, congrArg Prod.fst hrecv⟩, fun payload rest hcons => ?_⟩
      rw [hnil] at hcons
      cases hcons
    · refine ⟨fun hnil => ?_, fun payload' rest' hcons' => ?_⟩
      · rw [hcons] at hnil
        cases hnil
      · obtain ⟨rfl, -⟩ := List.cons.inj (hcons.symm.trans hcons')
        exact ⟨hstart, hrecv⟩

/-- The demo on the tables that the kernel has bootstrapped. -/
theorem setup_booted : ∃ d, setup (Object.RootCourt.after [.bootstrap]) = .ok d := by
  cases hd : setup (Object.RootCourt.after [.bootstrap]) with
  | ok d => exact ⟨d, rfl⟩
  | error e =>
    have hok : (setup (Object.RootCourt.after [.bootstrap])).toBool = true := by decide +kernel
    rw [hd] at hok
    cases hok

theorem revocation_per_capability_booted :
    ∃ d, setup (Object.RootCourt.after [.bootstrap]) = .ok d ∧
      d.NetServed [.app, .app, .net] ∧
      App.start (d.after [.app, .net, .revoke]).appBoot (d.after [.app, .net, .revoke]).page =
        (ST_DENIED, (d.after [.app, .net, .revoke]).page) := by
  obtain ⟨d, hd⟩ := setup_booted
  obtain ⟨-, -, hnet⟩ := revocation_per_capability hd [.app, .app, .net]
  obtain ⟨happ, -, -⟩ := revocation_per_capability hd [.app, .net, .revoke]
  exact ⟨d, hd, hnet.2 (by decide), happ (by decide)⟩

/-- A packet is sent, then the app's capability is revoked: `net` still holds the right to receive,
the hosted Root Court delivers the packet, and the net image is denied. -/
theorem revoke_denies_net :
    ∃ d, setup (Object.RootCourt.after [.bootstrap]) = .ok d ∧
      d.waiting [.app, .revoke] = [pkt] ∧
      capRights (d.after [.app, .revoke]).root (d.after [.app, .revoke]).netCap = some RIGHT_RECV ∧
      (Net.start (d.after [.app, .revoke]).netBoot (d.after [.app, .revoke]).page).1 = ST_DENIED ∧
      ((hosted [.app, .revoke]).recv ⟨2⟩ ⟨3⟩).1 = .ok pkt := by
  have heval : (setup (Object.RootCourt.after [.bootstrap])).map (fun d =>
      (d.waiting [.app, .revoke],
        capRights (d.after [.app, .revoke]).root (d.after [.app, .revoke]).netCap,
        (Net.start (d.after [.app, .revoke]).netBoot (d.after [.app, .revoke]).page).1)) =
      .ok ([pkt], some RIGHT_RECV, ST_DENIED) := by decide +kernel
  obtain ⟨d, hd⟩ := setup_booted
  rw [hd] at heval
  simp only [Except.map, Except.ok.injEq, Prod.mk.injEq] at heval
  obtain ⟨hwait, hcap, hstatus⟩ := heval
  exact ⟨d, hd, hwait, hcap, hstatus, by decide +kernel⟩

end Demo

end RootCourt

end CourtKernel
