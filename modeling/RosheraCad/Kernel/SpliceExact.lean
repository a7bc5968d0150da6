import RosheraCad.Kernel.CloneIsomorphic
import RosheraCad.Kernel.Splice

/-!
# What a splice brings over

Each solid of the source has a new solid in the target, of the same shape: roles, orders, flags and
sharing are kept. Curves alone are not shared. What is lost is a vertex tolerance, a face domain,
and the edges of a loop beyond its flags.
-/

namespace RosheraCad

namespace Merge

open DeepClone Transplant

variable {Curve Surface : Type} {t t' : Transplant Kind (PartRecord Curve Surface)}

/-! ## What a splice is to do -/

def Used (src : MeasuredModel Curve Surface) (x : Node) : Prop :=
  ∃ id, src.solids.Live id ∧ PartOf src.topology id x

/-- The record of a part refers to the renamed parts, and an edge to a new curve of its own. -/
def Carried (src dst dst' : MeasuredModel Curve Surface) (ρ : Naming) : Node → Prop
  | (.solid, id) => ∀ solid, src.solids.get id = some solid → dst'.solids.get (ρ .solid id) =
      some { renamedSolid ρ solid with name := solid.name.filter (· ≠ "") }
  | (.shell, id) => ∀ shell, src.shells.get id = some shell →
      dst'.shells.get (ρ .shell id) = some (renamedShell ρ shell)
  | (.face, id) => ∀ face, src.faces.get id = some face →
      ∃ face', dst'.faces.get (ρ .face id) = some face' ∧
        face'.toFace = renamedFace ρ face.toFace ∧
        face'.measuredUvBounds = face.measuredUvBounds
  | (.surface, id) => ∀ surface, src.surfaces.get id = some surface →
      dst'.surfaces.get (ρ .surface id) = some surface
  | (.loop, id) => ∀ l, src.loops.get id = some l →
      dst'.loops.get (ρ .loop id) = some (renamedLoop ρ l)
  | (.edge, id) => ∀ edge, src.edges.get id = some edge →
      ∃ curveId, dst.curves.get curveId = none ∧
        dst'.curves.get curveId = src.curves.get edge.curveId ∧
        dst'.edges.get (ρ .edge id) =
          some ⟨{ renamedEdge ρ edge.toEdge with curveId }, edge.tolerance⟩
  | (.curve, _) => True
  | (.vertex, id) => ∀ vertex, src.vertices.get id = some vertex →
      dst'.vertices.get (ρ .vertex id) = some vertex

/-- **The solids of the source were added to the target**: each has an isomorphic one over new ids,
in order, and shared parts have one copy. -/
structure Spliced (src dst : MeasuredModel Curve Surface)
    (result : List ℕ × MeasuredModel Curve Surface) : Prop where
  unchanged : ∀ k id r, dst.record k id = some r → result.2.record k id = some r
  added : ∃ ρ : Naming, result.1 = src.solids.iter.map (fun e ↦ ρ .solid e.1) ∧
    (∀ x, Used src x → x.1 ≠ .curve → dst.record x.1 (ρ x.1 x.2) = none) ∧
    Set.InjOn ρ.node {x | Used src x ∧ x.1 ≠ .curve} ∧
    ∀ x, Used src x → Carried src dst result.2 ρ x

def Plain : PartRecord Curve Surface → Prop
  | .vertex v => v.tolerance = tauWeld
  | .face f => f.measuredUvBounds = none
  | .loop l => l.orientations.length = l.edges.length
  | _ => True

/-- There is nothing to lose in the solids of a model. -/
def AllPlain (src : MeasuredModel Curve Surface) : Prop :=
  ∀ x r, Used src x → src.record x.1 x.2 = some r → Plain r

/-! ## A splice as a transplant -/

def Splice.view (st : Splice Curve Surface) : Transplant Kind (PartRecord Curve Surface) where
  record := st.dst.record
  next := st.dst.nextId
  noted k id := (st.remap.table k)[id]?

theorem record_add (m : MeasuredModel Curve Surface) (r : PartRecord Curve Surface) (k : Kind)
    (id : ℕ) : (m.add r).2.record k id =
      if k = r.kind ∧ id = m.nextId r.kind then some r else m.record k id := by
  rcases r with _ | _ | _ | _ | _ | _ | _ | _ <;> rcases k with _ | _ | _ | _ | _ | _ | _ | _
  all_goals
    simp only [MeasuredModel.add, MeasuredModel.record, PartRecord.kind, MeasuredModel.nextId,
      IdStore.get_add, reduceCtorEq, false_and, true_and, if_false]
    try
      split_ifs
      · rfl
      · rfl

theorem nextId_add (m : MeasuredModel Curve Surface) (r : PartRecord Curve Surface) (k : Kind) :
    (m.add r).2.nextId k = if k = r.kind then m.nextId r.kind + 1 else m.nextId k := by
  rcases r with _ | _ | _ | _ | _ | _ | _ | _ <;>
    rcases k with _ | _ | _ | _ | _ | _ | _ | _ <;> rfl

theorem number_add (m : MeasuredModel Curve Surface) (r : PartRecord Curve Surface) :
    (m.add r).1 = m.nextId r.kind := by
  rcases r with _ | _ | _ | _ | _ | _ | _ | _ <;> rfl

theorem table_insert (remap : Remap) {k : Kind} (hk : k ≠ .solid ∧ k ≠ .curve) (id new : ℕ)
    (k' : Kind) (id' : ℕ) : ((remap.insert k id new).table k')[id']? =
      if k' = k ∧ id' = id then some new else (remap.table k')[id']? := by
  rcases k with _ | _ | _ | _ | _ | _ | _ | _ <;> rcases k' with _ | _ | _ | _ | _ | _ | _ | _
  all_goals
    first
    | exact absurd rfl hk.1
    | exact absurd rfl hk.2
    | simp only [Remap.insert, Remap.table, OrderedMap.lookup_insert, reduceCtorEq, false_and,
        true_and, if_false]

theorem view_add (st : Splice Curve Surface) (r : PartRecord Curve Surface) :
    (st.add r).2.view = st.view.add r.kind r := by
  have hrecord : (st.dst.add r).2.record = (st.view.add r.kind r).record :=
    funext fun k ↦ funext fun id ↦ record_add st.dst r k id
  have hnext : (st.dst.add r).2.nextId = (st.view.add r.kind r).next :=
    funext fun k ↦ nextId_add st.dst r k
  rw [Splice.view, Splice.add, hrecord, hnext]
  rfl

theorem view_note (st : Splice Curve Surface) {k : Kind} (hk : k ≠ .solid ∧ k ≠ .curve) (id : ℕ)
    (r : PartRecord Curve Surface) (hr : r.kind = k) :
    (st.note id r).1 = st.view.next k ∧ (st.note id r).2.view = st.view.note k id r := by
  subst hr
  have hrecord : (st.dst.add r).2.record = (st.view.add r.kind r).record :=
    funext fun k ↦ funext fun id ↦ record_add st.dst r k id
  have hnext : (st.dst.add r).2.nextId = (st.view.add r.kind r).next :=
    funext fun k ↦ nextId_add st.dst r k
  refine ⟨number_add st.dst r, ?_⟩
  rw [Splice.view, Splice.note, hrecord, hnext, Transplant.note]
  congr 1
  funext k' id'
  rw [table_insert _ hk, number_add]
  rfl

/-! ## Copies -/

def NotedEach (t : Transplant Kind (PartRecord Curve Surface)) (k : Kind) (ids new : List ℕ) :
    Prop :=
  List.Forall₂ (fun id n ↦ t.noted k id = some n) ids new

def CurveAdded (src : MeasuredModel Curve Surface) (first : ℕ)
    (t : Transplant Kind (PartRecord Curve Surface)) (id n : ℕ) : Prop :=
  first ≤ n ∧ ∃ curve, src.curves.get id = some curve ∧ t.record .curve n = some (.curve curve)

def Copied (src : MeasuredModel Curve Surface) (first : ℕ)
    (t : Transplant Kind (PartRecord Curve Surface)) :
    PartRecord Curve Surface → PartRecord Curve Surface → Prop
  | .shell s, .shell s' => NotedEach t .face s.faces s'.faces ∧ s'.shellType = s.shellType
  | .face f, .face f' => t.noted .surface f.surfaceId = some f'.surfaceId ∧
      t.noted .loop f.outerLoop = some f'.outerLoop ∧
      NotedEach t .loop f.innerLoops f'.innerLoops ∧ f'.orientation = f.orientation ∧
      f'.measuredUvBounds = none
  | .surface a, .surface b => b = a
  | .loop l, .loop l' => NotedEach t .edge l.edges l'.edges ∧
      l'.orientations = (List.range l.edges.length).map (fun i ↦ l.orientations[i]?.getD true) ∧
      l'.loopType = l.loopType
  | .edge e, .edge e' => t.noted .vertex e.startVertex = some e'.startVertex ∧
      t.noted .vertex e.endVertex = some e'.endVertex ∧
      CurveAdded src first t e.curveId e'.curveId ∧ e'.orientation = e.orientation ∧
      e'.paramRange = e.paramRange ∧ e'.tolerance = e.tolerance
  | .vertex v, .vertex v' => v' = ⟨v.position, tauWeld⟩
  | _, _ => False

def depth : Kind → ℕ
  | .solid => 0
  | .shell => 1
  | .face => 2
  | .surface | .loop => 3
  | .edge => 4
  | .curve | .vertex => 5

theorem NotedEach.mono (h : t.Grows t')
    {k : Kind} {ids new : List ℕ} (hnoted : NotedEach t k ids new) : NotedEach t' k ids new :=
  hnoted.imp fun id n ↦ h.noted k id n

theorem Copied.mono {src : MeasuredModel Curve Surface} {first : ℕ} {a b : PartRecord Curve Surface}
    (h : t.Grows t') (hcopied : Copied src first t a b) : Copied src first t' a b := by
  rcases a with _ | _ | _ | _ | _ | _ | _ | _ <;> rcases b with _ | _ | _ | _ | _ | _ | _ | _
  all_goals try exact hcopied
  · exact ⟨hcopied.1.mono h, hcopied.2⟩
  · obtain ⟨hsurface, houter, hinner, hrest⟩ := hcopied
    exact ⟨h.noted _ _ _ hsurface, h.noted _ _ _ houter, hinner.mono h, hrest⟩
  · exact ⟨hcopied.1.mono h, hcopied.2⟩
  · obtain ⟨hstart, hend, ⟨hfirst, curve, hcurve, hadded⟩, hrest⟩ := hcopied
    exact ⟨h.noted _ _ _ hstart, h.noted _ _ _ hend,
      ⟨hfirst, curve, hcurve, h.record _ _ _ hadded⟩, hrest⟩

def scheme (src dst : MeasuredModel Curve Surface) : Scheme Kind (PartRecord Curve Surface) where
  kind := PartRecord.kind
  source := src.record
  depth := depth
  Copied := Copied src dst.curves.nextId
  Made := Plain
  mono _ _ _ _ h hcopied := hcopied.mono h

/-! ## What the source refers to is there -/

section Intact

variable {src : MeasuredModel Curve Surface} (hm : src.topology.RefsIntact) {id : ℕ}
include hm

theorem live_of_solid {solid : Solid} (h : src.solids.get id = some solid) :
    ∀ s ∈ solid.shells, src.shells.Live s := by
  intro s hs
  refine live_of_mem_partsOf hm (x := (.solid, id)) (y := (.shell, s)) ?_
  have hget : src.topology.solids.get id = some solid := h
  rw [partsOf, hget]
  exact List.mem_map_of_mem hs

theorem live_of_shell {shell : Shell} (h : src.shells.get id = some shell) :
    ∀ f ∈ shell.faces, src.faces.Live f := by
  intro f hf
  refine IdStore.live_map.mp (live_of_mem_partsOf hm (x := (.shell, id)) (y := (.face, f)) ?_)
  have hget : src.topology.shells.get id = some shell := h
  rw [partsOf, hget]
  exact List.mem_map_of_mem hf

theorem live_of_face {face : MeasuredFace} (h : src.faces.get id = some face) :
    src.surfaces.Live face.surfaceId ∧ ∀ l ∈ face.loops, src.loops.Live l := by
  have hparts : partsOf src.topology (.face, id) =
      (.surface, face.surfaceId) :: face.loops.map (.loop, ·) := by
    have hget : src.topology.faces.get id = some face.toFace := by
      rw [MeasuredModel.topology, IdStore.get_map, h]
      rfl
    rw [partsOf, hget]
    rfl
  have hlive (y : Node) (hy : y ∈ partsOf src.topology (.face, id)) : Live src.topology y :=
    live_of_mem_partsOf hm hy
  rw [hparts] at hlive
  exact ⟨hlive (.surface, face.surfaceId) List.mem_cons_self, fun l hl ↦
    hlive (.loop, l) (List.mem_cons_of_mem _ (List.mem_map_of_mem hl))⟩

theorem live_of_loop {l : Loop} (h : src.loops.get id = some l) :
    ∀ e ∈ l.edges, src.edges.Live e := by
  intro e he
  refine IdStore.live_map.mp (live_of_mem_partsOf hm (x := (.loop, id)) (y := (.edge, e)) ?_)
  have hget : src.topology.loops.get id = some l := h
  rw [partsOf, hget]
  exact List.mem_map_of_mem he

theorem live_of_edge {edge : TolerantEdge} (h : src.edges.get id = some edge) :
    src.curves.Live edge.curveId ∧ ∀ v ∈ edge.vertices, src.vertices.Live v := by
  have hparts : partsOf src.topology (.edge, id) =
      (.curve, edge.curveId) :: edge.vertices.map (.vertex, ·) := by
    have hget : src.topology.edges.get id = some edge.toEdge := by
      rw [MeasuredModel.topology, IdStore.get_map, h]
      rfl
    rw [partsOf, hget]
    rfl
  have hlive (y : Node) (hy : y ∈ partsOf src.topology (.edge, id)) : Live src.topology y :=
    live_of_mem_partsOf hm hy
  rw [hparts] at hlive
  exact ⟨hlive (.curve, edge.curveId) List.mem_cons_self, fun v hv ↦
    hlive (.vertex, v) (List.mem_cons_of_mem _ (List.mem_map_of_mem hv))⟩

end Intact

/-! ## Every step takes something over -/

section Steps

variable {src dst : MeasuredModel Curve Surface} {st : Splice Curve Surface}

abbrev Sound (src dst : MeasuredModel Curve Surface) (st : Splice Curve Surface) : Prop :=
  Invariant (scheme src dst) ⟨dst.record, dst.nextId, fun _ _ ↦ none⟩ st.view

abbrev Takes (src dst : MeasuredModel Curve Surface) (k : Kind) (id : ℕ)
    (st : Splice Curve Surface) (result : Option ℕ × Splice Curve Surface) : Prop :=
  TakesOver (scheme src dst) ⟨dst.record, dst.nextId, fun _ _ ↦ none⟩ Splice.view k id st result

theorem takes_each {k : Kind} {f : Splice Curve Surface → ℕ → Option ℕ × Splice Curve Surface}
    {ids : List ℕ} (hf : ∀ id ∈ ids, ∀ st, Sound src dst st → Takes src dst k id st (f st id))
    (h : Sound src dst st) :
    ∃ new st', each f st ids = (new.map some, st') ∧ Sound src dst st' ∧
      Step (scheme src dst) (depth k) st.view st'.view ∧ NotedEach st'.view k ids new :=
  exists_each hf h

theorem reduceOption_map_some (l : List ℕ) : (l.map some).reduceOption = l := by
  rw [List.reduceOption, List.filterMap_map]
  exact List.filterMap_some

theorem takes_remapVertex (h : Sound src dst st) {id : ℕ} (hlive : src.vertices.Live id) :
    Takes src dst .vertex id st (remapVertex src st id) := by
  obtain ⟨vertex, hget⟩ := IdStore.live_iff.mp hlive
  refine takesOver_memo rfl (fun st r ↦ view_note st (by decide) id r) h ?_
  rw [hget]
  refine ⟨_, st, rfl, rfl, h, .refl _, .vertex vertex, ?_, rfl, rfl⟩
  exact congrArg (Option.map PartRecord.vertex) hget

theorem takes_remapSurface (h : Sound src dst st) {id : ℕ} (hlive : src.surfaces.Live id) :
    Takes src dst .surface id st (remapSurface src st id) := by
  obtain ⟨surface, hget⟩ := IdStore.live_iff.mp hlive
  refine takesOver_memo rfl (fun st r ↦ view_note st (by decide) id r) h ?_
  rw [hget]
  refine ⟨_, st, rfl, rfl, h, .refl _, .surface surface, ?_, rfl, trivial⟩
  exact congrArg (Option.map PartRecord.surface) hget

theorem takes_remapEdge (hm : src.topology.RefsIntact) (h : Sound src dst st) {id : ℕ}
    (hlive : src.edges.Live id) : Takes src dst .edge id st (remapEdge src st id) := by
  obtain ⟨edge, hget⟩ := IdStore.live_iff.mp hlive
  obtain ⟨hcurve, hvertices⟩ := live_of_edge hm hget
  obtain ⟨curve, hcurve⟩ := IdStore.live_iff.mp hcurve
  obtain ⟨sv, st₁, hrun₁, h₁, hstep₁, hsv⟩ :=
    takes_remapVertex h (hvertices edge.startVertex (by simp [Edge.vertices]))
  obtain ⟨ev, st₂, hrun₂, h₂, hstep₂, hev⟩ :=
    takes_remapVertex h₁ (hvertices edge.endVertex (by simp [Edge.vertices]))
  have hview := view_add st₂ (.curve curve)
  have hgrows : st₂.view.Grows (st₂.add (.curve curve)).2.view := hview ▸ h₂.grows_add
  refine takesOver_memo rfl (fun st r ↦ view_note st (by decide) id r) h ?_
  rw [hget]
  simp only [hrun₁, hrun₂, hcurve]
  refine ⟨_, _, rfl, rfl, ?_, ?_, .edge edge, ?_, ?_, trivial⟩
  · rw [hview]
    exact h₂.add trivial
  · exact (hstep₁.trans hstep₂).trans ⟨hgrows, fun k _ ↦ by rw [hview]; rfl⟩
  · exact congrArg (Option.map PartRecord.edge) hget
  · refine ⟨hgrows.noted _ _ _ (hstep₂.grows.noted _ _ _ hsv), hgrows.noted _ _ _ hev,
      ⟨?_, curve, hcurve, ?_⟩, rfl, rfl, rfl⟩
    · exact (h₂.grows.next .curve).trans_eq (number_add st₂.dst (.curve curve)).symm
    · rw [hview]
      exact if_pos ⟨rfl, number_add st₂.dst (.curve curve)⟩

theorem foldl_addRemapped (flags : List Bool) (new : List ℕ) (l : Loop) (i : ℕ) :
    ((new.map some).zipIdx i).foldl (addRemapped flags) l =
      ⟨l.edges ++ new, l.orientations ++
        (List.range' i new.length).map (fun j ↦ flags[j]?.getD true), l.loopType⟩ := by
  induction new generalizing l i with
  | nil => simp
  | cons n new ih =>
    rw [List.map_cons, List.zipIdx_cons, List.foldl_cons, ih, addRemapped, addEdge]
    simp [List.range'_succ]

theorem takes_remapLoop (hm : src.topology.RefsIntact) (h : Sound src dst st) {id : ℕ}
    (hlive : src.loops.Live id) : Takes src dst .loop id st (remapLoop src st id) := by
  obtain ⟨l, hget⟩ := IdStore.live_iff.mp hlive
  obtain ⟨edges, st', hrun, h', hstep, hedges⟩ := takes_each (k := .edge) (f := remapEdge src)
    (fun id hid st h ↦ takes_remapEdge hm h (live_of_loop hm hget id hid)) h
  refine takesOver_memo rfl (fun st r ↦ view_note st (by decide) id r) h ?_
  rw [hget]
  simp only [hrun, foldl_addRemapped, List.nil_append]
  have hlength : edges.length = l.edges.length := hedges.length_eq.symm
  refine ⟨_, st', rfl, rfl, h', hstep, .loop l, ?_, ⟨hedges, ?_, rfl⟩, ?_⟩
  · exact congrArg (Option.map PartRecord.loop) hget
  · rw [hlength, List.range_eq_range']
  · show (List.map _ _).length = edges.length
    rw [List.length_map, List.length_range']

theorem takes_remapFace (hm : src.topology.RefsIntact) (h : Sound src dst st) {id : ℕ}
    (hlive : src.faces.Live id) : Takes src dst .face id st (remapFace src st id) := by
  obtain ⟨face, hget⟩ := IdStore.live_iff.mp hlive
  obtain ⟨hsurface, hloops⟩ := live_of_face hm hget
  obtain ⟨surface, st₁, hrun₁, h₁, hstep₁, hsurface⟩ := takes_remapSurface h hsurface
  obtain ⟨outer, st₂, hrun₂, h₂, hstep₂, houter⟩ :=
    takes_remapLoop hm h₁ (hloops face.outerLoop List.mem_cons_self)
  obtain ⟨inner, st₃, hrun₃, h₃, hstep₃, hinner⟩ := takes_each (k := .loop) (f := remapLoop src)
    (fun id hid st h ↦ takes_remapLoop hm h (hloops id (List.mem_cons_of_mem _ hid))) h₂
  refine takesOver_memo rfl (fun st r ↦ view_note st (by decide) id r) h ?_
  rw [hget]
  simp only [hrun₁, hrun₂, hrun₃, reduceOption_map_some]
  refine ⟨_, st₃, rfl, rfl, h₃, (hstep₁.trans hstep₂).trans hstep₃, .face face, ?_, ?_, rfl⟩
  · exact congrArg (Option.map PartRecord.face) hget
  · exact ⟨hstep₃.grows.noted _ _ _ (hstep₂.grows.noted _ _ _ hsurface),
      hstep₃.grows.noted _ _ _ houter, hinner, rfl, rfl⟩

theorem takes_remapShell (hm : src.topology.RefsIntact) (h : Sound src dst st) {id : ℕ}
    (hlive : src.shells.Live id) : Takes src dst .shell id st (remapShell src st id) := by
  obtain ⟨shell, hget⟩ := IdStore.live_iff.mp hlive
  obtain ⟨faces, st', hrun, h', hstep, hfaces⟩ := takes_each (k := .face) (f := remapFace src)
    (fun id hid st h ↦ takes_remapFace hm h (live_of_shell hm hget id hid)) h
  refine takesOver_memo rfl (fun st r ↦ view_note st (by decide) id r) h ?_
  rw [hget]
  simp only [hrun, reduceOption_map_some]
  refine ⟨_, st', rfl, rfl, h', hstep, .shell shell, ?_, ⟨hfaces, rfl⟩, trivial⟩
  exact congrArg (Option.map PartRecord.shell) hget

end Steps

/-! ## A run -/

section Run

variable {src dst : MeasuredModel Curve Surface} {st : Splice Curve Surface}
  {t : Transplant Kind (PartRecord Curve Surface)}

def SolidTaken (t : Transplant Kind (PartRecord Curve Surface)) (solid : Solid) (n : ℕ) : Prop :=
  ∃ outer voids peers, t.noted .shell solid.outerShell = some outer ∧
    NotedEach t .shell solid.innerShells voids ∧ NotedEach t .shell solid.peerShells peers ∧
    t.record .solid n = some (.solid ⟨outer, voids, peers, solid.name.filter (· ≠ "")⟩)

theorem SolidTaken.mono (h : t.Grows t')
    {solid : Solid} {n : ℕ} (htaken : SolidTaken t solid n) : SolidTaken t' solid n := by
  obtain ⟨outer, voids, peers, houter, hvoids, hpeers, hrecord⟩ := htaken
  exact ⟨outer, voids, peers, h.noted _ _ _ houter, hvoids.mono h, hpeers.mono h,
    h.record _ _ _ hrecord⟩

theorem exists_mergeOneSolid (hm : src.topology.RefsIntact) (h : Sound src dst st) {id : ℕ}
    {solid : Solid} (hget : src.solids.get id = some solid) :
    ∃ n st', mergeOneSolid src st id = (some n, st') ∧ Sound src dst st' ∧
      st.view.Grows st'.view ∧ st.view.next .solid ≤ n ∧ n < st'.view.next .solid ∧
      SolidTaken st'.view solid n := by
  have hlive := live_of_solid hm hget
  have hshells (ids : List ℕ) (hids : ∀ s ∈ ids, s ∈ solid.shells) :
      ∀ s ∈ ids, ∀ st, Sound src dst st → Takes src dst .shell s st (remapShell src st s) :=
    fun s hs st h ↦ takes_remapShell hm h (hlive s (hids s hs))
  obtain ⟨outer, st₁, hrun₁, h₁, hstep₁, houter⟩ :=
    takes_remapShell hm h (hlive solid.outerShell List.mem_cons_self)
  obtain ⟨voids, st₂, hrun₂, h₂, hstep₂, hvoids⟩ := takes_each (hshells solid.innerShells
    fun s hs ↦ List.mem_cons_of_mem _ (List.mem_append_left _ hs)) h₁
  obtain ⟨peers, st₃, hrun₃, h₃, hstep₃, hpeers⟩ := takes_each (hshells solid.peerShells
    fun s hs ↦ List.mem_cons_of_mem _ (List.mem_append_right _ hs)) h₂
  set new : PartRecord Curve Surface :=
    .solid ⟨outer, voids, peers, solid.name.filter (· ≠ "")⟩
  have hview := view_add st₃ new
  have hgrows : st₃.view.Grows (st₃.add new).2.view := hview ▸ h₃.grows_add
  have hrun : mergeOneSolid src st id = (some (st₃.view.next .solid), (st₃.add new).2) := by
    rw [mergeOneSolid, hget]
    simp only [hrun₁, hrun₂, hrun₃, reduceOption_map_some]
    rfl
  have hbefore := hstep₁.grows.trans (hstep₂.grows.trans hstep₃.grows)
  refine ⟨_, _, hrun, ?_, hbefore.trans hgrows, hbefore.next .solid, ?_,
    outer, voids, peers, ?_, ?_, hpeers.mono hgrows, ?_⟩
  · rw [Sound, hview]
    exact h₃.add trivial
  · rw [hview]
    exact Nat.lt_succ_self _
  · exact hgrows.noted _ _ _ (hstep₃.grows.noted _ _ _ (hstep₂.grows.noted _ _ _ houter))
  · exact (hvoids.mono hstep₃.grows).mono hgrows
  · rw [hview]
    exact if_pos ⟨rfl, rfl⟩

theorem exists_mergeAll (hm : src.topology.RefsIntact) {ids : List ℕ} (hnodup : ids.Nodup)
    (hids : ∀ id ∈ ids, src.solids.Live id) (h : Sound src dst st) :
    ∃ (new : ℕ → ℕ) (st' : Splice Curve Surface),
      each (mergeOneSolid src) st ids = ((ids.map new).map some, st') ∧ Sound src dst st' ∧
      st.view.Grows st'.view ∧ (∀ id ∈ ids, st.view.next .solid ≤ new id) ∧
      Set.InjOn new {id | id ∈ ids} ∧
      ∀ id ∈ ids, ∀ solid, src.solids.get id = some solid →
        SolidTaken st'.view solid (new id) := by
  induction ids generalizing st with
  | nil => exact ⟨fun _ ↦ 0, st, rfl, h, .refl _, nofun, nofun, nofun⟩
  | cons id ids ih =>
    obtain ⟨hid, hnodup⟩ := List.nodup_cons.mp hnodup
    obtain ⟨solid, hget⟩ := IdStore.live_iff.mp (hids id List.mem_cons_self)
    obtain ⟨n, st₁, hrun₁, h₁, hgrows₁, hfresh, hlt, htaken⟩ := exists_mergeOneSolid hm h hget
    obtain ⟨new, st₂, hrun₂, h₂, hgrows₂, hnext, hinj, hall⟩ :=
      ih hnodup (fun i hi ↦ hids i (List.mem_cons_of_mem _ hi)) h₁
    have hself : Function.update new id n id = n := Function.update_self _ _ _
    have hother : ∀ i ∈ ids, Function.update new id n i = new i := fun i hi ↦
      Function.update_of_ne (ne_of_mem_of_not_mem hi hid) _ _
    -- The solids after this one get later ids.
    have hlater : ∀ i ∈ ids, n < new i := fun i hi ↦ hlt.trans_le (hnext i hi)
    refine ⟨Function.update new id n, st₂, ?_, h₂, hgrows₁.trans hgrows₂, ?_, ?_, ?_⟩
    · rw [each, hrun₁]
      simp only [hrun₂, List.map_cons, hself, List.map_congr_left hother]
    · intro i hi
      rcases List.mem_cons.mp hi with rfl | hi
      · rw [hself]
        exact hfresh
      · exact hother i hi ▸ (hgrows₁.next .solid).trans (hnext i hi)
    · intro i hi j hj heq
      rcases List.mem_cons.mp hi with rfl | hi' <;> rcases List.mem_cons.mp hj with rfl | hj'
      · rfl
      · rw [hself, hother j hj'] at heq
        exact absurd heq (hlater j hj').ne
      · rw [hself, hother i hi'] at heq
        exact absurd heq.symm (hlater i hi').ne
      · rw [hother i hi', hother j hj'] at heq
        exact hinj hi' hj' heq
    · intro i hi solid' hget'
      rcases List.mem_cons.mp hi with rfl | hi
      · obtain rfl : solid = solid' := Option.some_inj.mp (hget.symm.trans hget')
        rw [hself]
        exact htaken.mono hgrows₂
      · exact hother i hi ▸ hall i hi solid' hget'

theorem map_getElem?_range (flags : List Bool) :
    (List.range flags.length).map (fun i ↦ flags[i]?.getD true) = flags := by
  refine List.ext_getElem (by simp) fun i hi hi' ↦ ?_
  rw [List.getElem_map, List.getElem_range, List.getElem?_eq_getElem hi', Option.getD_some]

theorem NotedEach.exists_noted {k : Kind}
    {ids new : List ℕ} (h : NotedEach t k ids new) {id : ℕ} (hid : id ∈ ids) :
    ∃ n, t.noted k id = some n := by
  induction h with
  | nil => exact absurd hid List.not_mem_nil
  | cons hn _ ih =>
    rcases List.mem_cons.mp hid with rfl | hid
    · exact ⟨_, hn⟩
    · exact ih hid

def naming (t : Transplant Kind (PartRecord Curve Surface)) (new : ℕ → ℕ) : Naming
  | .solid => new
  | k => fun id ↦ (t.noted k id).getD 0

theorem naming_of_noted (new : ℕ → ℕ) {k : Kind}
    {id n : ℕ} (h : t.noted k id = some n) (hk : k ≠ .solid) : naming t new k id = n := by
  rw [naming]
  · exact congrArg (Option.getD · 0) h
  · exact hk

theorem NotedEach.eq_map (new : ℕ → ℕ) {k : Kind}
    {ids ids' : List ℕ} (h : NotedEach t k ids ids') (hk : k ≠ .solid) :
    ids' = ids.map (naming t new k) := by
  induction h with
  | nil => rfl
  | cons hn _ ih => rw [List.map_cons, naming_of_noted new hn hk, ← ih]

theorem exists_copy (h : Sound src dst st) {k : Kind} {id n : ℕ} (hn : st.view.noted k id = some n)
    {a : PartRecord Curve Surface} (ha : src.record k id = some a) :
    ∃ b, st.dst.record k n = some b ∧ Copied src dst.curves.nextId st.view a b ∧
      dst.nextId k ≤ n := by
  obtain ⟨hfresh, a', b, ha', hb, hcopied⟩ := h.copied k id n hn
  obtain rfl : a' = a := Option.some_inj.mp (ha'.symm.trans ha)
  exact ⟨b, hb, hcopied, hfresh⟩

theorem get_eq_none_of_nextId_le {α : Type} {s : IdStore α} {id : ℕ} (h : s.nextId ≤ id) :
    s.get id = none := by
  cases hget : s.get id with
  | none => rfl
  | some a => exact absurd (IdStore.live_iff.mpr ⟨a, hget⟩) (IdStore.not_live_of_nextId_le h)

theorem record_eq_none_of_nextId_le {m : MeasuredModel Curve Surface} {k : Kind} {id : ℕ}
    (h : m.nextId k ≤ id) : m.record k id = none := by
  rcases k with _ | _ | _ | _ | _ | _ | _ | _
  all_goals
    rw [MeasuredModel.record, get_eq_none_of_nextId_le h]
    rfl

def Taken (src : MeasuredModel Curve Surface) (t : Transplant Kind (PartRecord Curve Surface)) :
    Node → Prop
  | (.solid, id) => src.solids.Live id
  | (.curve, _) => True
  | (k, id) => ∃ n, t.noted k id = some n

theorem Taken.exists_noted {x : Node}
    (h : Taken src t x) (hsolid : x.1 ≠ .solid) (hcurve : x.1 ≠ .curve) :
    ∃ n, t.noted x.1 x.2 = some n := by
  obtain ⟨k, id⟩ := x
  rcases k with _ | _ | _ | _ | _ | _ | _ | _
  · exact absurd rfl hsolid
  · exact h
  · exact h
  · exact h
  · exact h
  · exact h
  · exact absurd rfl hcurve
  · exact h

theorem Taken.step {x y : Node} (h : Sound src dst st)
    (hsolids : ∀ id solid, src.solids.get id = some solid → ∃ n, SolidTaken st.view solid n)
    (hx : Taken src st.view x) (hy : y ∈ partsOf src.topology x) : Taken src st.view y := by
  obtain ⟨k, id⟩ := x
  rcases k with _ | _ | _ | _ | _ | _ | _ | _
  · obtain ⟨solid, hget, hy⟩ := exists_of_mem_elim hy
    obtain ⟨s, hs, rfl⟩ := List.mem_map.mp hy
    -- The solids are taken last, so a solid's shells are there by assumption.
    obtain ⟨n, outer, voids, peers, houter, hvoids, hpeers, -⟩ := hsolids id solid hget
    rcases List.mem_cons.mp hs with rfl | hs
    · exact ⟨outer, houter⟩
    · exact (List.mem_append.mp hs).elim hvoids.exists_noted hpeers.exists_noted
  · obtain ⟨n, hn⟩ := hx
    obtain ⟨shell, hget, hy⟩ := exists_of_mem_elim hy
    obtain ⟨f, hf, rfl⟩ := List.mem_map.mp hy
    obtain ⟨b, hb, hcopied, -⟩ := exists_copy h hn (congrArg (Option.map PartRecord.shell) hget)
    obtain ⟨shell', -, rfl⟩ := Option.map_eq_some_iff.mp hb
    exact hcopied.1.exists_noted hf
  · obtain ⟨n, hn⟩ := hx
    obtain ⟨bare, hbare, hy⟩ := exists_of_mem_elim hy
    obtain ⟨face, hget, rfl⟩ :=
      Option.map_eq_some_iff.mp ((IdStore.get_map _ _ _).symm.trans hbare)
    obtain ⟨b, hb, hcopied, -⟩ := exists_copy h hn (congrArg (Option.map PartRecord.face) hget)
    obtain ⟨face', -, rfl⟩ := Option.map_eq_some_iff.mp hb
    obtain ⟨hsurface, houter, hinner, -⟩ := hcopied
    rcases List.mem_cons.mp hy with rfl | hy
    · exact ⟨_, hsurface⟩
    · obtain ⟨l, hl, rfl⟩ := List.mem_map.mp hy
      rcases List.mem_cons.mp hl with rfl | hl
      · exact ⟨_, houter⟩
      · exact hinner.exists_noted hl
  · exact absurd hy List.not_mem_nil
  · obtain ⟨n, hn⟩ := hx
    obtain ⟨l, hget, hy⟩ := exists_of_mem_elim hy
    obtain ⟨e, he, rfl⟩ := List.mem_map.mp hy
    obtain ⟨b, hb, hcopied, -⟩ := exists_copy h hn (congrArg (Option.map PartRecord.loop) hget)
    obtain ⟨l', -, rfl⟩ := Option.map_eq_some_iff.mp hb
    exact hcopied.1.exists_noted he
  · obtain ⟨n, hn⟩ := hx
    obtain ⟨bare, hbare, hy⟩ := exists_of_mem_elim hy
    obtain ⟨edge, hget, rfl⟩ :=
      Option.map_eq_some_iff.mp ((IdStore.get_map _ _ _).symm.trans hbare)
    obtain ⟨b, hb, hcopied, -⟩ := exists_copy h hn (congrArg (Option.map PartRecord.edge) hget)
    obtain ⟨edge', -, rfl⟩ := Option.map_eq_some_iff.mp hb
    obtain ⟨hstart, hend, -⟩ := hcopied
    rcases List.mem_cons.mp hy with rfl | hy
    · exact trivial
    · obtain ⟨v, hv, rfl⟩ := List.mem_map.mp hy
      rcases List.mem_cons.mp hv with rfl | hv
      · exact ⟨_, hstart⟩
      · obtain rfl := List.mem_singleton.mp hv
        exact ⟨_, hend⟩
  · exact absurd hy List.not_mem_nil
  · exact absurd hy List.not_mem_nil

section Carry

variable (h : Sound src dst st) (new : ℕ → ℕ) {id n : ℕ}
include h

theorem carried_shell (hn : st.view.noted .shell id = some n) :
    Carried src dst st.dst (naming st.view new) (.shell, id) := by
  intro shell hget
  obtain ⟨b, hb, hcopied, -⟩ := exists_copy h hn (congrArg (Option.map PartRecord.shell) hget)
  obtain ⟨shell', hget', rfl⟩ := Option.map_eq_some_iff.mp hb
  obtain ⟨hfaces, htype⟩ := hcopied
  rw [naming_of_noted new hn (by decide), hget', renamedShell, ← hfaces.eq_map new (by decide),
    ← htype]

theorem carried_face (hn : st.view.noted .face id = some n)
    (hplain : ∀ r, src.record .face id = some r → Plain r) :
    Carried src dst st.dst (naming st.view new) (.face, id) := by
  intro face hget
  have hface : src.record .face id = some (.face face) := congrArg (Option.map PartRecord.face) hget
  obtain ⟨b, hb, hcopied, -⟩ := exists_copy h hn hface
  obtain ⟨face', hget', rfl⟩ := Option.map_eq_some_iff.mp hb
  obtain ⟨hsurface, houter, hinner, horientation, hnone⟩ := hcopied
  refine ⟨face', ?_, ?_, hnone.trans (hplain _ hface).symm⟩
  · rw [naming_of_noted new hn (by decide), hget']
  · rw [renamedFace, naming_of_noted new hsurface (by decide),
      naming_of_noted new houter (by decide), ← hinner.eq_map new (by decide), ← horientation]

theorem carried_surface (hn : st.view.noted .surface id = some n) :
    Carried src dst st.dst (naming st.view new) (.surface, id) := by
  intro surface hget
  obtain ⟨b, hb, hcopied, -⟩ := exists_copy h hn (congrArg (Option.map PartRecord.surface) hget)
  obtain ⟨surface', hget', rfl⟩ := Option.map_eq_some_iff.mp hb
  obtain rfl : surface' = surface := hcopied
  rw [naming_of_noted new hn (by decide), hget']

theorem carried_loop (hn : st.view.noted .loop id = some n)
    (hplain : ∀ r, src.record .loop id = some r → Plain r) :
    Carried src dst st.dst (naming st.view new) (.loop, id) := by
  intro l hget
  have hloop : src.record .loop id = some (.loop l) := congrArg (Option.map PartRecord.loop) hget
  obtain ⟨b, hb, hcopied, -⟩ := exists_copy h hn hloop
  obtain ⟨l', hget', rfl⟩ := Option.map_eq_some_iff.mp hb
  obtain ⟨hedges, hflags, htype⟩ := hcopied
  have hlength : l.orientations.length = l.edges.length := hplain _ hloop
  rw [← hlength, map_getElem?_range] at hflags
  rw [naming_of_noted new hn (by decide), hget', renamedLoop, ← hedges.eq_map new (by decide),
    ← hflags, ← htype]

theorem carried_edge (hn : st.view.noted .edge id = some n) :
    Carried src dst st.dst (naming st.view new) (.edge, id) := by
  intro edge hget
  obtain ⟨b, hb, hcopied, -⟩ := exists_copy h hn (congrArg (Option.map PartRecord.edge) hget)
  obtain ⟨edge', hget', rfl⟩ := Option.map_eq_some_iff.mp hb
  obtain ⟨hstart, hend, ⟨hfirst, curve, hcurve, hadded⟩, horientation, hrange, htolerance⟩ :=
    hcopied
  obtain ⟨curve', hcurve', heq⟩ := Option.map_eq_some_iff.mp hadded
  obtain rfl := PartRecord.curve.inj heq
  refine ⟨edge'.curveId, get_eq_none_of_nextId_le hfirst, hcurve'.trans hcurve.symm, ?_⟩
  rw [naming_of_noted new hn (by decide), hget', renamedEdge,
    naming_of_noted new hstart (by decide), naming_of_noted new hend (by decide),
    ← horientation, ← hrange, ← htolerance]

theorem carried_vertex (hn : st.view.noted .vertex id = some n)
    (hplain : ∀ r, src.record .vertex id = some r → Plain r) :
    Carried src dst st.dst (naming st.view new) (.vertex, id) := by
  intro vertex hget
  have hvertex : src.record .vertex id = some (.vertex vertex) :=
    congrArg (Option.map PartRecord.vertex) hget
  obtain ⟨b, hb, hcopied, -⟩ := exists_copy h hn hvertex
  obtain ⟨vertex', hget', rfl⟩ := Option.map_eq_some_iff.mp hb
  obtain rfl : vertex' = _ := hcopied
  have htolerance : vertex.tolerance = tauWeld := hplain _ hvertex
  rw [naming_of_noted new hn (by decide), hget', ← htolerance]

end Carry

theorem carried_of_taken {x : Node} {new : ℕ → ℕ} (h : Sound src dst st)
    (hsolids : ∀ id solid, src.solids.get id = some solid → SolidTaken st.view solid (new id))
    (hplain : ∀ r, src.record x.1 x.2 = some r → Plain r) (hx : Taken src st.view x) :
    Carried src dst st.dst (naming st.view new) x := by
  obtain ⟨k, id⟩ := x
  rcases k with _ | _ | _ | _ | _ | _ | _ | _
  · intro solid hget
    obtain ⟨outer, voids, peers, houter, hvoids, hpeers, hrecord⟩ := hsolids id solid hget
    obtain ⟨solid', hget', heq⟩ := Option.map_eq_some_iff.mp hrecord
    obtain rfl := PartRecord.solid.inj heq
    rw [renamedSolid, naming_of_noted new houter (by decide), ← hvoids.eq_map new (by decide),
      ← hpeers.eq_map new (by decide)]
    exact hget'
  · exact carried_shell h new hx.choose_spec
  · exact carried_face h new hx.choose_spec hplain
  · exact carried_surface h new hx.choose_spec
  · exact carried_loop h new hx.choose_spec hplain
  · exact carried_edge h new hx.choose_spec
  · exact trivial
  · exact carried_vertex h new hx.choose_spec hplain

theorem sound_start (src dst : MeasuredModel Curve Surface) : Sound src dst ⟨dst, .default⟩ := by
  have hnone (k : Kind) (id : ℕ) : (Splice.view ⟨dst, .default⟩).noted k id = none := by
    rcases k with _ | _ | _ | _ | _ | _ | _ | _
    all_goals exact Std.ExtTreeMap.getElem?_empty
  constructor
  · exact ⟨fun _ _ _ hr ↦ hr, fun _ ↦ le_rfl, nofun⟩
  · intro k n r hr
    by_contra hle
    cases (record_eq_none_of_nextId_le (not_lt.mp hle)).symm.trans hr
  · intro k id n hn
    cases (hnone k id).symm.trans hn
  · intro k id id' n hn
    cases (hnone k id).symm.trans hn
  · exact fun k n r hr ↦ .inl hr

theorem plain_of_carried {x : Node} {ρ : Naming} (h : Sound src dst st)
    (hfresh : x.1 ≠ .curve → dst.record x.1 (ρ x.1 x.2) = none)
    (hcarried : Carried src dst st.dst ρ x) {r : PartRecord Curve Surface}
    (hr : src.record x.1 x.2 = some r) : Plain r := by
  obtain ⟨k, id⟩ := x
  have hmade {r' : PartRecord Curve Surface} (hk : k ≠ .curve)
      (hr' : st.dst.record k (ρ k id) = some r') : Plain r' := by
    refine (h.made k _ r' hr').resolve_left fun hold ↦ ?_
    cases (hfresh hk).symm.trans hold
  rcases k with _ | _ | _ | _ | _ | _ | _ | _
  all_goals obtain ⟨a, hget, rfl⟩ := Option.map_eq_some_iff.mp hr
  · exact trivial
  · exact trivial
  · obtain ⟨face', hget', -, hsame⟩ := hcarried a hget
    exact hsame.symm.trans (hmade nofun (congrArg (Option.map PartRecord.face) hget'))
  · exact trivial
  · have hplain : a.orientations.length = (a.edges.map (ρ .edge)).length :=
      hmade nofun (congrArg (Option.map PartRecord.loop) (hcarried a hget))
    rwa [List.length_map] at hplain
  · exact trivial
  · exact trivial
  · exact hmade nofun (congrArg (Option.map PartRecord.vertex) (hcarried a hget))

end Run

/-! ## Example splices -/

def emptyModel : MeasuredModel Unit Unit :=
  ⟨.empty, .empty, .empty, .empty, .empty, .empty, .empty, .empty⟩

/-- A solid with one shell over one face, whose boundary is a closed edge. -/
def oneMeasured (tolerance : F64) (measured : Bool) : MeasuredModel Unit Unit where
  vertices := .single ⟨(0, 0, 0), tolerance⟩
  curves := .single ()
  surfaces := .single ()
  edges := .single (.new ⟨0, 0, 0, .forward, (0, 0)⟩)
  loops := .single ⟨[0], [true], .outer⟩
  faces := .single ⟨⟨0, 0, [], .forward⟩, ((0, 0x4000000000000000), (0, 0x4000000000000000)),
    measured⟩
  shells := .single ⟨[0], .closed⟩
  solids := .single ⟨0, [], [], none⟩

theorem intact_oneMeasured (tolerance : F64) (measured : Bool) :
    (oneMeasured tolerance measured).topology.RefsIntact := by
  -- But for the tolerance its topology is one known to be intact.
  obtain ⟨hentities, hcurves, hsurfaces⟩ : (BRepModel.oneFace [true] [0] []).RefsIntact :=
    BRepModel.intact_oneFace (by simp) (by simp)
  have hhas {y : Delete.Entity} (hy : (BRepModel.oneFace [true] [0] []).Has y) :
      (oneMeasured tolerance measured).topology.Has y := by
    obtain ⟨r, hr⟩ := hy
    obtain ⟨t, id⟩ := y
    rcases t with _ | _ | _ | _ | _ | _
    · exact ⟨r, hr⟩
    · exact ⟨r, hr⟩
    · exact ⟨r, hr⟩
    · exact ⟨r, hr⟩
    · exact ⟨r, hr⟩
    · obtain ⟨v, hv, -⟩ := Option.map_eq_some_iff.mp hr
      obtain ⟨rfl, -⟩ := IdStore.get_single.mp hv
      exact ⟨_, rfl⟩
  refine ⟨?_, hcurves, hsurfaces⟩
  rintro ⟨t, id⟩ r hr y hy
  rcases t with _ | _ | _ | _ | _ | _
  · exact hhas (hentities (.solid, id) r hr y hy)
  · exact hhas (hentities (.shell, id) r hr y hy)
  · exact hhas (hentities (.face, id) r hr y hy)
  · exact hhas (hentities (.loop, id) r hr y hy)
  · exact hhas (hentities (.edge, id) r hr y hy)
  · obtain ⟨v, -, rfl⟩ := Option.map_eq_some_iff.mp hr
    exact absurd hy List.not_mem_nil

theorem used_oneMeasured (tolerance : F64) (measured : Bool) :
    Used (oneMeasured tolerance measured) (.face, 0) ∧
      Used (oneMeasured tolerance measured) (.vertex, 0) := by
  have hsolid : (oneMeasured tolerance measured).solids.Live 0 :=
    IdStore.live_iff.mpr ⟨⟨0, [], [], none⟩, rfl⟩
  have hface : PartOf (oneMeasured tolerance measured).topology 0 (.face, 0) :=
    (Relocation.Part.refl.tail (y := (.shell, 0)) List.mem_cons_self).tail List.mem_cons_self
  refine ⟨⟨0, hsolid, hface⟩, 0, hsolid, ?_⟩
  exact ((hface.tail (y := (.loop, 0)) (List.mem_cons_of_mem _ List.mem_cons_self)).tail
    (y := (.edge, 0)) List.mem_cons_self).tail (List.mem_cons_of_mem _ List.mem_cons_self)

end Merge

end RosheraCad
