import Stripe.Proofs.Writer.Success

/-!
# What the connections of a writer carry

A wire only grows, and an outlet takes no more in all than it was granted.
So a writer can be joined to pipes that hold a limited number of bytes.
-/

namespace Stripe.Writer

open Segment

/-- How many bytes connection `i` takes in all, if there is a limit. -/
def quota (w : Writer) (i : Nat) : Option Nat :=
  match w.lanes[i]? with
  | some lane => lane.outlet.quota
  | none => none

/-- What is on the wires has grown, and no room was granted. -/
structure Flows (w w' : Writer) : Prop where
  config : w'.config = w.config
  wire : ∀ i, w.wire i <+: w'.wire i
  quota : ∀ i, w'.quota i = w.quota i

/-- The same, and nothing was written. -/
structure Spares (w w' : Writer) : Prop where
  config : w'.config = w.config
  wire : ∀ i, w'.wire i = w.wire i
  quota : ∀ i, w'.quota i = w.quota i

section Flow

variable {n : Nat} {sent : Bytes} {asked : Prop}
  {rows done : Nat → List Segment} {fed : List Segment} {w w' : Writer}

theorem Spares.flows (h : Spares w w') : Flows w w' :=
  ⟨h.config, fun i => h.wire i ▸ List.prefix_rfl, h.quota⟩

theorem Spares.of_lanes (config : w'.config = w.config)
    (lanes : w'.lanes = w.lanes) : Spares w w' := by
  refine ⟨config, ?_, ?_⟩
  · intro i
    simp only [Writer.wire, lanes]
  · intro i
    simp only [Writer.quota, lanes]

/-- One lane has moved, and its wire has grown. -/
theorem grows_of_set {i : Nat} {lane lane' : Lane}
    (hl : w.lanes[i]? = some lane) (lanes : w'.lanes = w.lanes.set i lane')
    (wire : lane.outlet.wire <+: lane'.outlet.wire) (j : Nat) :
    w.wire j <+: w'.wire j := by
  have hi : i < w.lanes.length := (List.getElem?_eq_some_iff.1 hl).1
  by_cases hj : i = j
  · subst hj
    have hself : w'.lanes[i]? = some lane' := by
      rw [lanes, List.getElem?_set_self hi]
    rwa [wire_eq_of_lane hl, wire_eq_of_lane hself]
  · simp only [Writer.wire, lanes, List.getElem?_set_ne hj]
    exact List.prefix_rfl

theorem Flows.of_set {i : Nat} {lane lane' : Lane}
    (hl : w.lanes[i]? = some lane) (config : w'.config = w.config)
    (lanes : w'.lanes = w.lanes.set i lane')
    (wire : lane.outlet.wire <+: lane'.outlet.wire)
    (quota : lane'.outlet.quota = lane.outlet.quota) : Flows w w' := by
  refine ⟨config, grows_of_set hl lanes wire, ?_⟩
  have hi : i < w.lanes.length := (List.getElem?_eq_some_iff.1 hl).1
  intro j
  by_cases hj : i = j
  · subst hj
    have hself : w'.lanes[i]? = some lane' := by
      rw [lanes, List.getElem?_set_self hi]
    simpa only [Writer.quota, hl, hself] using quota
  · simp only [Writer.quota, lanes, List.getElem?_set_ne hj]

/-- One lane has moved, and has written nothing. -/
theorem Spares.of_set {i : Nat} {lane lane' : Lane}
    (hl : w.lanes[i]? = some lane) (config : w'.config = w.config)
    (lanes : w'.lanes = w.lanes.set i lane')
    (wire : lane'.outlet.wire = lane.outlet.wire)
    (quota : lane'.outlet.quota = lane.outlet.quota) : Spares w w' := by
  have hgrown := Flows.of_set hl config lanes (wire ▸ List.prefix_rfl) quota
  refine ⟨config, fun j => ?_, hgrown.quota⟩
  refine (List.IsPrefix.eq_of_length (hgrown.wire j) ?_).symm
  have hi : i < w.lanes.length := (List.getElem?_eq_some_iff.1 hl).1
  by_cases hj : i = j
  · subst hj
    have hself : w'.lanes[i]? = some lane' := by
      rw [lanes, List.getElem?_set_self hi]
    rw [wire_eq_of_lane hl, wire_eq_of_lane hself, wire]
  · simp only [Writer.wire, lanes, List.getElem?_set_ne hj]

theorem spares_shutLane (w : Writer) (i : Nat) :
    Spares w (w.shutLane i) := by
  unfold shutLane
  split
  · exact .of_lanes rfl rfl
  · exact .of_lanes rfl rfl
  · rename_i c phase _ hl
    have hset (v : Writer) (hconfig : v.config = w.config)
        (hv : v.lanes = w.lanes.set i ⟨c.shutdown.2, phase⟩) : Spares w v :=
      .of_set hl hconfig hv rfl rfl
    cases hf : c.shutdown.1 with
    | none =>
      simp only [hf]
      exact hset _ rfl rfl
    | some cause =>
      simp only [hf]
      split
      · exact hset _ rfl rfl
      · exact hset _ rfl rfl

/-- **A call writes nothing.** -/
theorem spares_advance (hm : 0 < w.config.maxSegmentLen)
    (ha : w.advance = some w') : Spares w w' := by
  have hreject (v : Writer) (e : Error) (job : Job)
      (hconfig : v.config = w.config) (hlanes : v.lanes = w.lanes) :
      Spares w (v.reject e job) := by
    have hidle := idles_reject e job v
    exact .of_lanes (hidle.config.trans hconfig) (hidle.lanes.trans hlanes)
  cases advance_cases hm ha with
  | start call stage =>
    refine ⟨rfl, ?_, ?_⟩
    · intro i
      simp only [wire, setCall, Writer.start, List.getElem?_map]
      cases w.lanes[i]? <;> rfl
    · intro i
      simp only [quota, setCall, Writer.start, List.getElem?_map]
      cases w.lanes[i]? <;> rfl
  | resume call stage => exact .of_lanes rfl rfl
  | late call stage => exact hreject w _ _ rfl rfl
  | abort call stopped => exact hreject w _ _ rfl rfl
  | hand call going send => exact .of_lanes rfl rfl
  | alone call going send fails waits => exact hreject _ _ _ rfl rfl
  | proceed call proceeds =>
    have hidle := idles_proceeds proceeds
    exact .of_lanes hidle.config hidle.lanes
  | announce call owner => exact .of_lanes rfl rfl
  | tally call owner count => exact .of_lanes rfl rfl
  | settle call owner count => exact .of_lanes rfl rfl
  | @shut next k started copied call lt =>
    have h := spares_shutLane w next
    exact ⟨h.config, h.wire, h.quota⟩
  | conclude call le => exact .of_lanes rfl rfl

theorem spares_begin (w : Writer) (job : Job) :
    Spares w (w.setCall (.opening job)) := .of_lanes rfl rfl

/-- **What the connections carry grows** with every event, and is limited
by the room that is granted. -/
theorem Fares.flows (h : Fares n sent asked rows done fed w) {e : Event}
    (he : e.isPlain = true) (hroom : ∀ i m, e ≠ .room i m)
    (hs : w.step e = some w') : Flows w w' := by
  cases step_cases hs with
  | work work =>
    obtain ⟨⟨_, _, _, _, _, hconfig⟩, ⟨lane, lane', hl, _, hset, _, _, hquota,
      hwire, _⟩, _⟩ := h.hale.smooth h.inv work
    exact .of_set hl hconfig hset hwire hquota
  | advance advance => exact (spares_advance h.inv.maxLen advance).flows
  | begin idle begins => exact (spares_begin w _).flows
  | room i m => exact absurd rfl (hroom i m)
  | _ => cases he

/-- A worker writes on at its own wire. -/
theorem Inv.grows_work {loose : Prop} (h : Inv n loose rows done fed w)
    {i : Nat} (hw : w.work i = some w') (j : Nat) :
    w.wire j <+: w'.wire j := by
  have hstays {v : Writer} {lane lane' : Lane}
      (hl : w.lanes[i]? = some lane) (lanes : v.lanes = w.lanes.set i lane')
      (wire : lane'.outlet.wire = lane.outlet.wire) :
      w.wire j <+: v.wire j :=
    grows_of_set hl lanes (wire ▸ List.prefix_rfl) j
  cases h.worked hw with
  | begin lane slot => exact hstays lane rfl rfl
  | post lane slot receives slot' queue => exact List.prefix_rfl
  | ask lane empty disturbed => exact hstays lane rfl rfl
  | quit lane receives => exact hstays lane rfl rfl
  | last lane judges taken => exact hstays lane rfl rfl
  | obey lane judges taken => exact hstays lane rfl rfl
  | dismiss lane judges why => exact hstays lane rfl rfl
  | back lane judges why going => exact hstays lane rfl rfl
  | halt lane part stopped => exact hstays lane rfl rfl
  | more lane part going write =>
    cases Outgoing.write_spec (h.busy lane part).2.2.2.2.1 write with
    | more pos left bytes wire closed sound quota =>
      exact grows_of_set lane rfl ⟨_, wire.symm⟩ j
  | @written c c' phase s rest lane part going write =>
    cases Outgoing.write_spec (h.busy lane part).2.2.2.2.1 write with
    | done wire closed sound quota =>
      obtain ⟨phase', hset⟩ : ∃ phase',
          ((w.account i phase).after i c' phase).lanes =
            w.lanes.set i ⟨c', phase'⟩ := by
        cases phase with
        | writing u r last => cases last <;> exact ⟨_, rfl⟩
        | _ => exact ⟨_, rfl⟩
      exact grows_of_set lane hset ⟨_, wire.symm⟩ j
  | failed lane part going write =>
    cases Outgoing.write_spec (h.busy lane part).2.2.2.2.1 write with
    | failed wire unsound => exact hstays lane rfl wire
  | panicked lane part going write =>
    cases Outgoing.write_spec (h.busy lane part).2.2.2.2.1 write with
    | panicked wire unsound => exact hstays lane rfl wire
  | flushed lane flush => exact hstays lane rfl rfl
  | unflushed lane flush => exact hstays lane rfl rfl

theorem wire_grantRoom (w : Writer) (i : Nat) (m : Option Nat) (j : Nat) :
    (w.grantRoom i m).wire j = w.wire j :=
  wire_of_keeps (keeps_grantRoom w i m) j

theorem written_grantRoom (w : Writer) (i : Nat) (m : Option Nat) :
    (w.grantRoom i m).written = w.written := by
  have hsize : (w.grantRoom i m).connections = w.connections := by
    simp [connections, grantRoom]
  simp only [Writer.written, hsize, wire_grantRoom]

/-- **A wire only grows**, whatever happens. -/
theorem Ruled.grows (h : Ruled n w) {e : Event} (hs : w.step e = some w')
    (j : Nat) : w.wire j <+: w'.wire j := by
  obtain ⟨loose, rows, done, fed, hinv⟩ := h
  cases step_cases hs with
  | work work => exact hinv.grows_work work j
  | advance advance =>
    exact (spares_advance hinv.maxLen advance).flows.wire j
  | begin idle begins => exact (spares_begin w _).flows.wire j
  | abandon busy => exact (Spares.of_lanes (by simp) (by simp)).flows.wire j
  | cancel => exact List.prefix_rfl
  | drop => exact (Spares.of_lanes (by simp) (by simp)).flows.wire j
  | room i m => exact wire_grantRoom w i m j ▸ List.prefix_rfl

/-- Room is granted to one connection. -/
theorem quota_grantRoom {i j m b : Nat} (h : w.quota j = some b) :
    ∃ b', (w.grantRoom i (some m)).quota j = some b' ∧ b ≤ b' ∧
      (j = i → b' = b + m) := by
  unfold quota grantRoom at *
  simp only [List.getElem?_modify]
  cases hl : w.lanes[j]? with
  | none =>
    rw [hl] at h
    cases h
  | some lane =>
    rw [hl] at h
    simp only [Outlet.quota, Option.map_eq_some_iff] at h
    obtain ⟨r, hr, rfl⟩ := h
    by_cases hij : i = j
    · refine ⟨lane.outlet.wire.length + (r + m), ?_, by omega, ?_⟩
      · simp [hij, Outlet.quota, Outlet.grantRoom, hr]
        rfl
      · intro _
        omega
    · refine ⟨lane.outlet.wire.length + r, ?_, Nat.le_refl _, ?_⟩
      · simp [hij, Outlet.quota, hr]
      · intro hji
        exact absurd hji.symm hij

end Flow

end Stripe.Writer
