import PipelineLang.Proofs.Grammar.Nesting

/-!
# The order in which pipelines are listed

A `Way` leads from the body of a declaration into branches, and a `Place` says from which body. The
list of all pipelines has each place once, and none before one that it lies within: a fact of lists
of lists (`Traverses.indexed`) that holds of branches, of steps and of bodies. In the text a pipeline
stands where its first step does. One step after the other, where pipelines stand rises along the
tree of a declaration (`hereditary_rising`), and along declarations of one kind. But named pipelines
are listed before routes, so the list is in the order of the text just if they also stand before them
(`allPipelines_sourceOrder_iff`).
-/

namespace PipelineLang

/-! ## Listing what keys lead to -/

section

variable {A B K : Type}

/-- `xs` lists what the keys lead to: each key that leads anywhere once, and none before a key that
it lies within. -/
def Traverses (find? : K → Option A) (Within : K → K → Prop) (xs : List A) : Prop :=
  ∃ keys : List K, keys.map find? = xs.map some ∧ (∀ k, (find? k).isSome → k ∈ keys) ∧
    keys.Pairwise fun k k' => ¬Within k k'

/-- If what is found in each element is listed, then so is what is found in a list of them, where a
key begins with the index of the element. -/
theorem Traverses.indexed {find? : B → K → Option A} {Within : K → K → Prop} {xs : B → List A}
    {ys : List B} (h : ∀ y ∈ ys, Traverses (find? y) Within (xs y)) :
    Traverses (fun k : Nat × K => ys[k.1]?.bind (find? · k.2))
      (fun k k' => k.1 = k'.1 ∧ Within k.2 k'.2) (ys.flatMap xs) := by
  induction ys with
  | nil => exact ⟨[], rfl, fun _ => nofun, .nil⟩
  | cons y ys ih =>
    obtain ⟨keys, hfind, hall, hkeys⟩ := h y List.mem_cons_self
    obtain ⟨rest, hfind', hall', hrest⟩ := ih fun z hz => h z (List.mem_cons_of_mem y hz)
    refine ⟨keys.map (0, ·) ++ rest.map fun k => (k.1 + 1, k.2), ?_, ?_, ?_⟩
    · rw [List.map_append, List.map_map, List.map_map, List.flatMap_cons, List.map_append, ← hfind,
        ← hfind']
      rfl
    · rintro ⟨_ | i, k⟩ hk
      · exact List.mem_append_left _ (List.mem_map_of_mem (hall k hk))
      · exact List.mem_append_right _ (List.mem_map.2 ⟨(i, k), hall' (i, k) hk, rfl⟩)
    · refine List.pairwise_append.2 ⟨List.pairwise_map.2 ?_, List.pairwise_map.2 ?_, ?_⟩
      · exact hkeys.imp fun hk hwithin => hk hwithin.2
      · exact hrest.imp fun hk hwithin => hk ⟨Nat.succ.inj hwithin.1, hwithin.2⟩
      · intro k hk k' hk' hwithin
        obtain ⟨_, -, rfl⟩ := List.mem_map.1 hk
        obtain ⟨_, -, rfl⟩ := List.mem_map.1 hk'
        cases hwithin.1

end

/-! ## Places of pipelines -/

/-- How to go from a pipeline to one inside it: each time, which step and which of its branches. -/
abbrev Pipeline.Way := List (Nat × Nat)

/-- The pipeline that the way leads to. -/
def Pipeline.at? (p : Pipeline) : Pipeline.Way → Option Pipeline
  | [] => some p
  | (i, j) :: way => p[i]?.bind fun s => s.branches[j]?.bind fun b => at? b.steps way

/-- Which of the bodies, and how to go on from there. -/
abbrev Program.Place := Nat × Pipeline.Way

/-- The pipeline at the place. -/
def Program.at? (p : Program) (place : Program.Place) : Option Pipeline :=
  p.bodies[place.1]?.bind (Pipeline.at? · place.2)

/-- The place is the other one, or one inside it. -/
def Program.Place.Within (a b : Program.Place) : Prop := a.1 = b.1 ∧ b.2 <+: a.2

theorem Branch.nestedAll_eq_flatMap (bs : List Branch) :
    Branch.nestedAll bs = bs.flatMap Branch.nested := by
  induction bs with
  | nil => rfl
  | cons b bs ih => rw [Branch.nestedAll, ih, List.flatMap_cons]

theorem Step.nestedAll_eq_flatMap (ss : List Step) :
    Step.nestedAll ss = ss.flatMap Step.nested := by
  induction ss with
  | nil => rfl
  | cons s ss ih => rw [Step.nestedAll, ih, List.flatMap_cons]

/-- The pipelines in the branches of a step are listed. -/
def Step.Traversed (s : Step) : Prop :=
  Traverses (fun k : Nat × Pipeline.Way => s.branches[k.1]?.bind fun b => Pipeline.at? b.steps k.2)
    (fun k k' => k.1 = k'.1 ∧ k'.2 <+: k.2) s.nested

/-- A pipeline comes before those below its steps. -/
theorem Pipeline.traverses {p : Pipeline} (h : ∀ s ∈ p, Step.Traversed s) :
    Traverses p.at? (fun way way' => way' <+: way) p.all := by
  obtain ⟨keys, hfind, hall, hkeys⟩ := Traverses.indexed h
  rw [← Step.nestedAll_eq_flatMap] at hfind
  refine ⟨[] :: keys.map fun k => (k.1, k.2.1) :: k.2.2, ?_, ?_, ?_⟩
  · rw [List.map_cons, List.map_map, Pipeline.all, List.map_cons, ← hfind]
    rfl
  · rintro (_ | ⟨⟨i, j⟩, way⟩) hway
    · exact List.mem_cons_self
    · exact List.mem_cons_of_mem _ (List.mem_map.2 ⟨(i, j, way), hall (i, j, way) hway, rfl⟩)
  · refine List.pairwise_cons.2 ⟨fun way hway hnil => ?_, List.pairwise_map.2 ?_⟩
    · obtain ⟨_, -, rfl⟩ := List.mem_map.1 hway
      cases List.prefix_nil.1 hnil
    · refine hkeys.imp ?_
      rintro ⟨i, j, way⟩ ⟨i', j', way'⟩ hk hprefix
      obtain ⟨hturn, hway⟩ := List.cons_prefix_cons.1 hprefix
      obtain ⟨hi, hj⟩ := Prod.mk.inj hturn
      exact hk ⟨hi.symm, hj.symm, hway⟩

mutual
theorem Step.traversed : ∀ s : Step, s.Traversed
  | .call .. => ⟨[], rfl, fun _ => nofun, .nil⟩
  | .result _ bs => by
    rw [Step.Traversed, Step.nested, Branch.nestedAll_eq_flatMap]
    exact Traverses.indexed (Branch.traversedAll bs)
theorem Branch.traversedAll : ∀ bs : List Branch, ∀ b ∈ bs,
    Traverses b.steps.at? (fun way way' => way' <+: way) b.nested
  | [] => nofun
  | b :: bs => List.forall_mem_cons.2 ⟨b.traversed, Branch.traversedAll bs⟩
theorem Branch.traversed : ∀ b : Branch,
    Traverses b.steps.at? (fun way way' => way' <+: way) b.nested
  | .mk _ _ _ steps => Pipeline.traverses (Step.traversedAll steps)
theorem Step.traversedAll : ∀ ss : List Step, ∀ s ∈ ss, s.Traversed
  | [] => nofun
  | s :: ss => List.forall_mem_cons.2 ⟨s.traversed, Step.traversedAll ss⟩
end

theorem Program.allPipelines_eq (p : Program) : p.allPipelines = p.bodies.flatMap Pipeline.all := by
  rw [Program.allPipelines, Program.bodies, List.flatMap_append, List.flatMap_map]
  congr 1
  induction p.routes with
  | nil => rfl
  | cons r rs ih =>
    rw [List.flatMap_cons, List.filterMap_cons, ih]
    cases r.value.body with
    | inline steps => rfl
    | named name => rfl

/-- Each place that has a pipeline is listed once, and none before one that it lies within. -/
theorem Program.traverses (p : Program) :
    Traverses p.at? Program.Place.Within p.allPipelines := by
  rw [p.allPipelines_eq]
  exact Traverses.indexed fun body _ => Pipeline.traverses (Step.traversedAll body)

/-! ## Where pipelines stand -/

/-- Where the first step of the pipeline starts. -/
def Pipeline.start? (p : Pipeline) : Option Nat := p.head?.map (·.span.start)

/-- Where those of the pipelines that have steps start. -/
def starts (ps : List Pipeline) : List Nat := ps.filterMap Pipeline.start?

/-- Of any two pipelines with steps, the earlier one starts first. -/
def InSourceOrder (ps : List Pipeline) : Prop := (starts ps).Pairwise (· < ·)

@[simp] theorem starts_append (ps qs : List Pipeline) : starts (ps ++ qs) = starts ps ++ starts qs :=
  List.filterMap_append

/-- The offsets rise from one to the next, and none is outside of the given ones. -/
structure Rising (a b : Nat) (ns : List Nat) : Prop where
  inside : ∀ n ∈ ns, a ≤ n ∧ n < b
  pairwise : ns.Pairwise (· < ·)

namespace Rising

variable {a b m : Nat} {ns ms : List Nat}

theorem nil (a b : Nat) : Rising a b [] := ⟨nofun, .nil⟩

theorem mono {a' b' : Nat} (h : Rising a b ns) (ha : a' ≤ a) (hb : b ≤ b') : Rising a' b' ns where
  inside n hn := by
    have := h.inside n hn
    omega
  pairwise := h.pairwise

theorem sublist (h : Rising a b ns) (hms : ms.Sublist ns) : Rising a b ms :=
  ⟨fun n hn => h.inside n (hms.subset hn), h.pairwise.sublist hms⟩

theorem append (h : Rising a m ns) (h' : Rising m b ms) (ha : a ≤ m) (hb : m ≤ b) :
    Rising a b (ns ++ ms) where
  inside n hn := by
    rcases List.mem_append.1 hn with hn | hn
    · have := h.inside n hn
      omega
    · have := h'.inside n hn
      omega
  pairwise := by
    refine List.pairwise_append.2 ⟨h.pairwise, h'.pairwise, fun n hn n' hn' => ?_⟩
    exact (h.inside n hn).2.trans_le (h'.inside n' hn').1

/-- An offset in front of others. -/
theorem cons (h : Rising (a + 1) b ns) (ha : a < b) : Rising a b (a :: ns) := by
  have hfirst : Rising a (a + 1) [a] := ⟨by simp, List.pairwise_singleton _ _⟩
  exact hfirst.append h (Nat.le_succ a) ha

end Rising

/-- The named pipelines, each followed by those nested in it. -/
def Program.namedTrees (p : Program) : List Pipeline :=
  (p.pipelines.map (·.value.steps)).flatMap Pipeline.all

/-- The pipelines of routes, each followed by those nested in it. -/
def Program.routeTrees (p : Program) : List Pipeline :=
  (p.routes.filterMap (·.value.body.inline?)).flatMap Pipeline.all

theorem Program.allPipelines_eq_append (p : Program) :
    p.allPipelines = p.namedTrees ++ p.routeTrees := by
  rw [p.allPipelines_eq, Program.bodies, List.flatMap_append]
  rfl

/-- A tree has a pipeline with steps just if its own pipeline has some. -/
theorem exists_mem_starts_all {p : Pipeline} : (∃ n, n ∈ starts p.all) ↔ p ≠ [] := by
  cases p with
  | nil => simp [starts, Pipeline.all, Pipeline.start?, Step.nestedAll]
  | cons s ss =>
    refine iff_of_true ⟨s.span.start, ?_⟩ (List.cons_ne_nil s ss)
    exact List.mem_filterMap.2 ⟨s :: ss, List.mem_cons_self, rfl⟩

theorem mem_starts_flatMap {ps : List Pipeline} {n : Nat} :
    n ∈ starts (ps.flatMap Pipeline.all) ↔ ∃ p ∈ ps, n ∈ starts p.all := by
  rw [starts, List.filterMap_flatMap, List.mem_flatMap]
  rfl

namespace Grammar

open Cursor

variable {c d : Cursor} {text : List Char}

/-- Pipelines start between the cursors that the tree is read between, those below a step behind its
own start. -/
theorem hereditary_rising : Hereditary
    (fun c ss _ d => Rising c.offset d.offset (starts (Pipeline.all ss)))
    (fun c s _ d => Rising (c.offset + 1) d.offset (starts s.nested))
    (fun c bs _ d => Rising c.offset d.offset (starts (Branch.nestedAll bs))) where
  noStep c := .nil _ _
  nextStep := by
    intro c d e s ss rs rs' hs hss hfirst hrest
    have hbelow : Rising d.offset e.offset (starts (Step.nestedAll ss)) :=
      hrest.sublist ((List.sublist_cons_self ss _).filterMap _)
    have hnested := hfirst.append hbelow (offset_lt hs.lt) (offset_le hss.le)
    have hstarts : starts (Pipeline.all (s :: ss))
        = c.layout.offset :: starts (s.nested ++ Step.nestedAll ss) := by
      rw [starts, Pipeline.all, Step.nestedAll, List.filterMap_cons_some]
      · rfl
      · rw [Pipeline.start?, List.head?_cons, Option.map_some, hs.span_eq]
    rw [hstarts, starts_append]
    exact (hnested.cons (offset_lt (hs.lt.trans_le hss.le))).mono (offset_le (le_layout c)) le_rfl
  ofCall := by
    intro c arrow d s _ hcall
    obtain ⟨name, next, colon, value, span, -, -, -, rfl⟩ := call_spec hcall
    exact .nil _ _
  ofTooDeep := by
    intro c arrow behind _ _
    exact .nil _ _
  ofResult := by
    intro c arrow behind d bs rs harrow hword _ hbs
    rw [Step.nested]
    exact hbs.mono (offset_lt ((arrow_lt harrow).trans (resultWord_lt hword))) le_rfl
  noBranch c := .nil _ _
  nextBranch := by
    intro c colon d e label digits ss bs rs rs' hhead hss hbs hsteps hrest
    have hcolon := offset_le ((le_layout c).trans (branchHead_lt hhead).le)
    rw [Branch.nestedAll, Branch.nested, starts_append]
    exact (hsteps.append hrest (offset_le hss.le) (offset_le hbs.le)).mono hcolon le_rfl

/-- The pipelines of a declaration start inside its span, one behind the other. -/
theorem pipelines_rising {v : Spanned NamedPipeline} (h : v ∈ (parse text).program.pipelines) :
    Rising v.span.start v.span.stop (starts v.value.steps.all) := by
  obtain ⟨c, rs, d, -, hread, hspan⟩ := mem_pipelines h
  obtain ⟨word, name, equals, hword, hname, -, -, hsteps⟩ := namedPipeline_spec hread
  have hequals := offset_le (hword.le.trans (declaredName_lt hname).le)
  rw [hspan]
  exact (hsteps.induct hereditary_rising).mono hequals le_rfl

theorem routes_rising {v : Spanned Route} (h : v ∈ (parse text).program.routes) :
    ∀ steps ∈ v.value.body.inline?,
      Rising v.span.start v.span.stop (starts (Pipeline.all steps)) := by
  intro steps hinline
  obtain ⟨c, rs, d, -, hread, hspan⟩ := mem_routes h
  obtain ⟨behind, ss, hbehind, hsteps, hbody⟩ := route_spec hread
  rw [hbody] at hinline
  rcases routeBody_cases ss with hss | ⟨span, name, payloadSpan, -, hnamed⟩
  · rw [hss] at hinline
    cases hinline
    rw [hspan]
    exact (hsteps.induct hereditary_rising).mono (offset_le hbehind.le) le_rfl
  · rw [hnamed] at hinline
    cases hinline

/-- Trees of declarations that stand one behind the other are in source order. -/
theorem inSourceOrder_flatMap {α : Type} {vs : List (Spanned α)} {trees : Spanned α → List Pipeline}
    (hvs : vs.Pairwise fun v w => v.span.stop ≤ w.span.start)
    (h : ∀ v ∈ vs, Rising v.span.start v.span.stop (starts (trees v))) :
    InSourceOrder (vs.flatMap trees) := by
  rw [InSourceOrder, starts, List.filterMap_flatMap]
  refine List.pairwise_flatMap.2 ⟨fun v hv => (h v hv).pairwise, hvs.imp_of_mem ?_⟩
  intro v w hv hw hle n hn m hm
  have hstop := ((h v hv).inside n hn).2
  have hstart := ((h w hw).inside m hm).1
  omega

theorem inSourceOrder_namedTrees (text : List Char) :
    InSourceOrder (parse text).program.namedTrees := by
  rw [Program.namedTrees, List.flatMap_map]
  refine inSourceOrder_flatMap (pairwise_declarations text fun i v hv => ?_) fun v hv =>
    pipelines_rising hv
  cases i <;> cases hv
  rfl

theorem inSourceOrder_routeTrees (text : List Char) :
    InSourceOrder (parse text).program.routeTrees := by
  rw [Program.routeTrees, List.filterMap_eq_flatMap_toList, List.flatMap_assoc]
  refine inSourceOrder_flatMap (pairwise_declarations text fun i v hv => ?_) fun v hv => ?_
  · cases i <;> cases hv
    rfl
  · cases hinline : v.value.body.inline? with
    | none => exact .nil _ _
    | some steps =>
      rw [Option.toList_some, List.flatMap_singleton]
      exact routes_rising hv steps hinline

/-- No named pipeline shares a byte with a route. -/
theorem pipelines_apart_routes {u : Spanned NamedPipeline} {r : Spanned Route}
    (hu : u ∈ (parse text).program.pipelines) (hr : r ∈ (parse text).program.routes) :
    u.span.stop ≤ r.span.start ∨ r.span.stop ≤ u.span.start := by
  have happart := declarationSpans_apart text
  simp only [Parse.declarationSpans, List.pairwise_append] at happart
  obtain ⟨⟨-, -, hroutes⟩, -⟩ := happart
  refine hroutes _ ?_ _ (List.mem_map_of_mem hr)
  exact List.mem_append_left _ (List.mem_append_right _ (List.mem_map_of_mem hu))

/-- The list of all pipelines is in source order just if no route that has steps stands before a
named pipeline that has some. -/
theorem inSourceOrder_allPipelines_iff (text : List Char) :
    InSourceOrder (parse text).program.allPipelines ↔
      ∀ u ∈ (parse text).program.pipelines, ∀ r ∈ (parse text).program.routes,
        u.value.steps ≠ [] → ∀ steps ∈ r.value.body.inline?, steps ≠ [] →
          u.span.start < r.span.start := by
  rw [Program.allPipelines_eq_append, InSourceOrder, starts_append, List.pairwise_append]
  constructor
  · rintro ⟨-, -, hlt⟩ u hu r hr hsteps steps hinline hsteps'
    obtain ⟨n, hn⟩ := exists_mem_starts_all.2 hsteps
    obtain ⟨m, hm⟩ := exists_mem_starts_all.2 hsteps'
    have hnm := hlt n (mem_starts_flatMap.2 ⟨_, List.mem_map_of_mem hu, hn⟩) m
      (mem_starts_flatMap.2 ⟨_, List.mem_filterMap.2 ⟨r, hr, hinline⟩, hm⟩)
    have hnu := (pipelines_rising hu).inside n hn
    have hmr := (routes_rising hr steps hinline).inside m hm
    have hapart := pipelines_apart_routes hu hr
    omega
  · intro hlt
    refine ⟨inSourceOrder_namedTrees text, inSourceOrder_routeTrees text, fun n hn m hm => ?_⟩
    obtain ⟨_, hp, hn⟩ := mem_starts_flatMap.1 hn
    obtain ⟨u, hu, rfl⟩ := List.mem_map.1 hp
    obtain ⟨steps, hq, hm⟩ := mem_starts_flatMap.1 hm
    obtain ⟨r, hr, hinline⟩ := List.mem_filterMap.1 hq
    have hur := hlt u hu r hr (exists_mem_starts_all.1 ⟨n, hn⟩) steps hinline
      (exists_mem_starts_all.1 ⟨m, hm⟩)
    have hnu := (pipelines_rising hu).inside n hn
    have hmr := (routes_rising hr steps hinline).inside m hm
    have hapart := pipelines_apart_routes hu hr
    omega

/-- **All pipelines are listed, in source order but for routes before named pipelines.** The list has
the pipeline of each place of the program exactly once, and no place comes before one that it lies
within. The trees of named pipelines come before those of routes, and both parts are in source order.
The whole list is so if and only if no route that has steps stands before a named pipeline that has
some. -/
theorem allPipelines_sourceOrder_iff (text : List Char) :
    (∃ places : List Program.Place,
      places.map (parse text).program.at? = (parse text).program.allPipelines.map some ∧
      (∀ place, ((parse text).program.at? place).isSome → place ∈ places) ∧
      places.Nodup ∧ places.Pairwise fun a b => ¬a.Within b) ∧
    (parse text).program.allPipelines
      = (parse text).program.namedTrees ++ (parse text).program.routeTrees ∧
    InSourceOrder (parse text).program.namedTrees ∧
    InSourceOrder (parse text).program.routeTrees ∧
    (InSourceOrder (parse text).program.allPipelines ↔
      ∀ u ∈ (parse text).program.pipelines, ∀ r ∈ (parse text).program.routes,
        u.value.steps ≠ [] → ∀ steps ∈ r.value.body.inline?, steps ≠ [] →
          u.span.start < r.span.start) := by
  obtain ⟨places, hfind, hall, hplaces⟩ := (parse text).program.traverses
  refine ⟨⟨places, hfind, hall, hplaces.imp ?_, hplaces⟩, Program.allPipelines_eq_append _,
    inSourceOrder_namedTrees text, inSourceOrder_routeTrees text,
    inSourceOrder_allPipelines_iff text⟩
  rintro a _ hwithin rfl
  exact hwithin ⟨rfl, List.prefix_refl a.2⟩

/-- A named pipeline with a branch, before a route. -/
def pipelineFirst : List Char :=
  "pipeline p =\n  |> result\n    ok(200):\n      |> a: \x60x\x60\nGET /b\n  |> b: \x60y\x60\n".toList

/-- Where the named pipeline stands first, the whole list is in source order. -/
theorem allPipelines_sourceOrder_iff_pipelineFirst :
    starts (parse pipelineFirst).program.allPipelines = [15, 44, 63] ∧
      InSourceOrder (parse pipelineFirst).program.allPipelines := by
  have hstarts : starts (parse pipelineFirst).program.allPipelines = [15, 44, 63] := by
    decide +kernel
  refine ⟨hstarts, (allPipelines_sourceOrder_iff pipelineFirst).2.2.2.2.2 ?_⟩
  decide +kernel

/-- A route before a named pipeline, both with steps. -/
def routeFirst : List Char :=
  "GET /a\n  |> a: \x60x\x60\npipeline p =\n  |> b: \x60y\x60\n".toList

/-- The list of all pipelines begins with the named pipeline, which stands last. -/
theorem allPipelines_routeFirst :
    starts (parse routeFirst).program.allPipelines = [34, 9] ∧
      ¬InSourceOrder (parse routeFirst).program.allPipelines := by
  have hstarts : starts (parse routeFirst).program.allPipelines = [34, 9] := by decide +kernel
  refine ⟨hstarts, ?_⟩
  rw [InSourceOrder, hstarts]
  decide

end Grammar
end PipelineLang
