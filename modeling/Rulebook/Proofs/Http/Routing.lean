import Mathlib.Data.List.Basic
import Rulebook.Http.Route
import Rulebook.Proofs.Text.Cutting

/-!
Routing. A path without escapes and dots is the path of its target as it stands, and the first plan
that fits a method and a path is where they lead.
-/

namespace Rulebook

namespace Text

theorem bytesOfChar_of_ascii {c : Char} (h : c.toNat < 0x80) : bytesOfChar c = [c.toNat] := by
  simp [bytesOfChar, bytesOfNumber, h]

theorem charsOfBytes_of_ascii {cs : List Char} (h : ∀ c ∈ cs, c.toNat < 0x80) :
    charsOfBytes none (cs.flatMap bytesOfChar) = cs := by
  induction cs with
  | nil => rfl
  | cons c cs ih =>
      obtain ⟨hc, hcs⟩ := List.forall_mem_cons.mp h
      rw [List.flatMap_cons, bytesOfChar_of_ascii hc, List.singleton_append, charsOfBytes]
      simp [hc, ih hcs]

theorem unescapedBytes_of_not_mem {cs : List Char} (h : '%' ∉ cs) :
    unescapedBytes cs = cs.flatMap bytesOfChar := by
  induction cs with
  | nil => simp [unescapedBytes]
  | cons c cs ih =>
      obtain ⟨hc, hcs⟩ := List.ne_and_not_mem_of_not_mem_cons h
      rw [unescapedBytes, ih hcs, List.flatMap_cons]
      rintro a b rest rfl
      exact absurd rfl hc

end Text

namespace Http

namespace Target

theorem withoutDots_eq {steps : List (List Char)} (h : ∀ step ∈ steps, '.' ∉ step) :
    withoutDots steps = steps := by
  have hkept : withoutDots steps = (steps.foldl (fun kept step => step :: kept) []).reverse := by
    refine congrArg List.reverse (List.foldl_ext _ _ _ fun kept step hstep => ?_)
    have hone : step ≠ ['.'] := fun he => h step hstep (he ▸ .head _)
    have htwo : step ≠ ['.', '.'] := fun he => h step hstep (he ▸ .head _)
    simp [hone, htwo]
  rw [hkept, List.foldl_flip_cons_eq_append', List.append_nil, List.reverse_reverse]

theorem resolveDots_eq {path : List Char} (hne : path ≠ []) (h : '.' ∉ path) :
    resolveDots path = path := by
  have hsteps : ∀ step ∈ Text.pieces '/' path, '.' ∉ step :=
    fun _ hstep hdot => h (Text.mem_of_mem_pieces hstep hdot)
  rw [resolveDots, withoutDots_eq hsteps, Text.pieces_eq_splitOn, List.intercalate_splitOn]
  split
  · contradiction
  · rfl

/-- A character that stands for itself in a path. -/
def IsDirect (c : Char) : Prop := c.toNat < 0x80 ∧ c ∉ ['#', '?', '%', '.']

instance : DecidablePred IsDirect := fun _ => inferInstanceAs (Decidable (_ ∧ _))

theorem path_ofText {s : String} {first : Char} {cs : List Char}
    (hs : s.toList = '/' :: first :: cs) (hslash : first ≠ '/')
    (hall : ∀ c ∈ s.toList, IsDirect c) : (ofText s).path = s := by
  have hne (mark : Char) (hmark : mark ∈ ['#', '?', '%', '.']) : mark ∉ s.toList :=
    fun hmem => (hall mark hmem).2 hmark
  have htake (mark : Char) (hmark : mark ∈ ['#', '?', '%', '.']) :
      s.toList.takeWhile (· != mark) = s.toList := by
    refine List.takeWhile_eq_self_iff.mpr fun c hc => ?_
    simpa using fun he : c = mark => hne mark hmark (he ▸ hc)
  have hhost : withoutHost s.toList = s.toList := by
    rw [hs, withoutHost]
    rintro rest he
    exact hslash (List.cons.inj (List.cons.inj he).2).1
  have hroot : rooted s.toList = s.toList := by
    rw [hs, rooted]
    simp [hslash]
  rw [ofText, htake '#' (by simp), hhost, htake '?' (by simp), hroot,
    resolveDots_eq (by simp [hs]) (hne '.' (by simp)), Text.percentDecode,
    Text.unescapedBytes_of_not_mem (hne '%' (by simp)),
    Text.charsOfBytes_of_ascii fun c hc => (hall c hc).1, String.ofList_toList]

end Target

/-- As much is taken as may be, if what follows begins otherwise. -/
theorem ParameterKind.longest_append {α : Type} {isAllowed : Char → Bool} {least : Nat}
    {next : List Char → Option α} {run rest : List Char} {a : α}
    (hrun : ∀ c ∈ run, isAllowed c = true) (hleast : least ≤ run.length)
    (hrest : ∀ c ∈ rest.head?, isAllowed c = false) (hnext : next rest = some a) :
    longest isAllowed least next (run ++ rest) = some (run, a) := by
  induction run generalizing least with
  | nil =>
      obtain rfl := Nat.le_zero.mp hleast
      cases rest with
      | nil => simp [longest, hnext]
      | cons c rest => simp [longest, hrest c rfl, hnext]
  | cons c run ih =>
      obtain ⟨hc, hcs⟩ := List.forall_mem_cons.mp hrun
      have htail := ih hcs (Nat.sub_le_of_le_add hleast)
      simp [longest, hc, htail]

namespace Pattern
variable {start finish id cs : List Char} {bindings : List Binding}

@[simp] theorem after?_append (start rest : List Char) :
    after? start (start ++ rest) = some rest := by
  simp [after?]

theorem append_of_after? {rest : List Char} (h : after? start cs = some rest) :
    cs = start ++ rest := by
  unfold after? at h
  split at h
  · rename_i hprefix
    obtain ⟨rest', rfl⟩ := List.isPrefixOf_iff_prefix.mp hprefix
    simpa using h
  · cases h

/-- A plain pattern fits one path only, but for a line break at its end. -/
theorem eq_of_match?_plain (h : match? [.plain start] cs = some bindings) :
    cs = start ∨ cs = start ++ ['\n'] := by
  obtain ⟨rest, hafter, hrest⟩ := Option.bind_eq_some_iff.mp h
  rw [append_of_after? hafter]
  cases rest with
  | nil => simp
  | cons c rest =>
      rw [match?] at hrest
      split at hrest
      · simp_all [isPathEnd]
      · cases hrest

theorem bindings_of_match?_plain (h : match? [.plain start] cs = some bindings) :
    bindings = [] := by
  obtain ⟨rest, -, hrest⟩ := Option.bind_eq_some_iff.mp h
  rw [match?] at hrest
  split at hrest
  · exact (Option.some.inj hrest).symm
  · cases hrest

/-- A step of a path stands for a parameter between plain parts. -/
theorem match?_step {p : Parameter} (hp : p.kind = .step) (hne : id ≠ []) (hslash : '/' ∉ id)
    (hfinish : ∀ c ∈ finish.head?, c = '/') :
    match? [.plain start, .parameter p, .plain finish] (start ++ (id ++ finish)) =
      some [⟨p, String.ofList id⟩] := by
  have hrun : ∀ c ∈ id, (c != '/') = true := fun c hc => by
    simpa using fun he : c = '/' => hslash (he ▸ hc)
  have hrest : ∀ c ∈ finish.head?, (c != '/') = false := fun c hc => by simp [hfinish c hc]
  have hend : match? [.plain finish] finish = some [] := by
    have hafter := after?_append finish []
    rw [List.append_nil] at hafter
    simp [match?, hafter, isPathEnd]
  have hlongest := ParameterKind.longest_append hrun (List.length_pos_of_ne_nil hne) hrest hend
  rw [match?, after?_append, Option.bind_some, match?, hp]
  simp [ParameterKind.split?, hlongest]

end Pattern

section
variable {s : Settings} {table : List Route} {plan : RoutePlan} {method : String} {t : Target}

theorem RoutePlan.route_eq_ok {route : Route} (h : plan.route = .ok route) :
    route.methods = plan.methods ∧ route.action = plan.action ∧
      Pattern.ofPath plan.path = .ok route.pattern := by
  unfold RoutePlan.route at h
  split at h
  · cases h
  · rename_i hpattern
    split at h
    · cases h
    · cases h
      exact ⟨rfl, rfl, hpattern⟩

theorem map_eq_of_mapM {ε α β : Type} {f : α → Except ε β} {as : List α} {bs : List β}
    (h : as.mapM f = .ok bs) : as.map f = bs.map .ok := by
  induction as generalizing bs with
  | nil =>
      rw [List.mapM_nil] at h
      cases h
      rfl
  | cons a as ih =>
      rw [List.mapM_cons] at h
      cases ha : f a with
      | error e =>
          rw [ha] at h
          cases h
      | ok b =>
          cases has : as.mapM f with
          | error e =>
              rw [ha, has] at h
              cases h
          | ok rest =>
              rw [ha, has] at h
              cases h
              rw [List.map_cons, List.map_cons, ha, ih has]

/-- There is one route for each plan. -/
theorem map_route_plans (h : routes s = .ok table) :
    (plans s).map RoutePlan.route = table.map .ok := by
  unfold routes at h
  split at h
  · cases h
  · split at h
    · exact map_eq_of_mapM h
    · cases h

/-- A plan that fits a method and a path, with what the parameters of its path stand for. -/
structure RoutePlan.Fits (plan : RoutePlan) (method path : String) (bindings : List Binding) :
    Prop where
  method : plan.methods.contains method = true
  path : ∃ pattern, Pattern.ofPath plan.path = .ok pattern ∧
    pattern.match? path.toList = some bindings

theorem RoutePlan.exists_of_mem (h : routes s = .ok table) {route : Route} (hroute : route ∈ table) :
    ∃ plan ∈ plans s, route.methods = plan.methods ∧ route.action = plan.action ∧
      Pattern.ofPath plan.path = .ok route.pattern := by
  obtain ⟨plan, hplan, hown⟩ := List.mem_map.mp (map_route_plans h ▸ List.mem_map_of_mem hroute)
  exact ⟨plan, hplan, RoutePlan.route_eq_ok hown⟩

/-- If all plans that fit a method and a path have one action, this is where they lead. -/
theorem destination_of_plans (h : routes s = .ok table) {bindings : List Binding}
    (hplan : plan ∈ plans s) (hfits : plan.Fits method t.path bindings)
    (hother : ∀ p ∈ plans s, ∀ others, p.Fits method t.path others →
      p.action others = plan.action bindings) :
    destination table method t = .action (plan.action bindings) := by
  have hcandidate : ∀ c ∈ fitting table t.path, c.1.methods.contains method = true →
      c.2 = plan.action bindings := by
    intro c hc hmethod
    obtain ⟨route, hroute, hc⟩ := List.mem_filterMap.mp hc
    obtain ⟨a, ha, rfl⟩ := Option.map_eq_some_iff.mp hc
    obtain ⟨others, hothers, rfl⟩ := Option.map_eq_some_iff.mp ha
    obtain ⟨p, hp, hmethods, haction, hpattern⟩ := RoutePlan.exists_of_mem h hroute
    rw [haction]
    exact hother p hp others ⟨hmethods ▸ hmethod, _, hpattern, hothers⟩
  obtain ⟨pattern, hpattern, hmatch⟩ := hfits.path
  obtain ⟨route, hroute, hown⟩ := List.mem_map.mp (map_route_plans h ▸ List.mem_map_of_mem hplan)
  obtain ⟨hmethods, -, hpattern'⟩ := RoutePlan.route_eq_ok hown.symm
  obtain rfl := Except.ok.inj (hpattern.symm.trans hpattern')
  have hmem : (route, route.action bindings) ∈ fitting table t.path :=
    List.mem_filterMap.mpr ⟨route, hroute, by simp [Route.match?, hmatch]⟩
  cases hfind : (fitting table t.path).find? (fun c => c.1.methods.contains method) with
  | none => exact absurd (hmethods ▸ hfits.method) (List.find?_eq_none.mp hfind _ hmem)
  | some c =>
      have hmethod : c.1.methods.contains method = true := by
        have hfound := List.find?_some hfind
        exact hfound
      simp only [destination, hfind]
      rw [hcandidate c (List.mem_of_find?_eq_some hfind) hmethod]

theorem RoutePlan.Fits.eq_of_plain {path : String} {start : List Char} {bindings : List Binding}
    (h : plan.Fits method path bindings)
    (hplain : (Pattern.ofPath plan.path).toOption = some [.plain start]) :
    path.toList = start ∨ path.toList = start ++ ['\n'] := by
  obtain ⟨pattern, hpattern, hmatch⟩ := h.path
  rw [hpattern] at hplain
  obtain rfl := Option.some.inj hplain
  exact Pattern.eq_of_match?_plain hmatch

end

/-- The methods that lead to an action. -/
def Action.methods : Action → List String
  | .showPage => ["GET", "HEAD"]
  | .createRule | .evaluateAdHoc | .evaluateRule _ => ["POST"]
  | .deleteRule _ => ["DELETE"]
  | .reportHealth | .reportReadiness | .listRules _ | .getRule _ | .describe => ["GET"]

theorem RoutePlan.methods_eq {s : Settings} {plan : RoutePlan} (h : plan ∈ plans s)
    (bindings : List Binding) : plan.methods = (plan.action bindings).methods := by
  rcases List.mem_append.mp h with hpage | hrule
  · split at hpage
    · obtain ⟨path, -, rfl⟩ := List.mem_map.mp hpage
      rfl
    · cases hpage
  · simp only [List.mem_cons, List.not_mem_nil, or_false] at hrule
    rcases hrule with rfl | rfl | rfl | rfl | rfl | rfl | rfl | rfl | rfl <;> rfl

/-- An action is that of a plan that fits the method and the path. -/
theorem exists_plan_of_destination {s : Settings} {table : List Route} (h : routes s = .ok table)
    {method : String} {t : Target} {a : Action} (ha : destination table method t = .action a) :
    ∃ plan ∈ plans s, ∃ bindings, plan.Fits method t.path bindings ∧ a = plan.action bindings := by
  unfold destination at ha
  dsimp only at ha
  split at ha
  · rename_i route a' hfind
    obtain rfl := Destination.action.inj ha
    have hmethod : route.methods.contains method = true := by simpa using List.find?_some hfind
    obtain ⟨route', hroute, hfits⟩ := List.mem_filterMap.mp (List.mem_of_find?_eq_some hfind)
    obtain ⟨a'', hmatch, he⟩ := Option.map_eq_some_iff.mp hfits
    obtain ⟨rfl, rfl⟩ := Prod.mk.inj he
    obtain ⟨bindings, hbindings, rfl⟩ := Option.map_eq_some_iff.mp hmatch
    obtain ⟨plan, hplan, hmethods, haction, hpattern⟩ := RoutePlan.exists_of_mem h hroute
    exact ⟨plan, hplan, bindings, ⟨hmethods ▸ hmethod, _, hpattern, hbindings⟩, by rw [haction]⟩
  · split at ha
    · cases ha
    · split at ha <;> cases ha

/-- An action is led to by its methods only. -/
theorem method_of_destination {s : Settings} {table : List Route} (h : routes s = .ok table)
    {method : String} {t : Target} {a : Action} (ha : destination table method t = .action a) :
    method ∈ a.methods := by
  obtain ⟨plan, hplan, bindings, hfits, rfl⟩ := exists_plan_of_destination h ha
  rw [← RoutePlan.methods_eq hplan]
  simpa using hfits.method

/-- The plan for deciding a rule under the default root. -/
def evaluationPlan : RoutePlan :=
  .onBody "request" (rulePath ("/api/v1" ++ "/rules") ++ "/evaluate") fun b =>
    .evaluateRule (idOf b)

theorem ofPath_evaluationPlan : Pattern.ofPath evaluationPlan.path = .ok
    [.plain "/api/v1/rules/".toList, .parameter ⟨idName, .step⟩, .plain "/evaluate".toList] := by
  have hread : (Pattern.ofPath evaluationPlan.path).toOption = some [.plain "/api/v1/rules/".toList,
      .parameter ⟨idName, .step⟩, .plain "/evaluate".toList] := by decide +kernel
  cases h : Pattern.ofPath evaluationPlan.path with
  | error fault =>
      rw [h] at hread
      cases hread
  | ok pattern =>
      rw [h] at hread
      rw [Option.some.inj hread]

/-- The path of any other plan for a POST is plain, with fewer slashes. -/
theorem post_plans {s : Settings} (hroot : s.apiRoot = "/api/v1") {plan : RoutePlan}
    (hplan : plan ∈ plans s) (hpost : plan.methods.contains "POST" = true) :
    plan = evaluationPlan ∨ ∃ start : List Char, start.count '/' = 4 ∧
      (Pattern.ofPath plan.path).toOption = some [.plain start] := by
  have hpages : ∀ p ∈ pagePlans, p.methods.contains "POST" = false := by decide +kernel
  rcases List.mem_append.mp hplan with hpage | hrule
  · split at hpage
    · cases (hpages plan hpage).symm.trans hpost
    · cases hpage
  · rw [hroot] at hrule
    simp only [List.mem_cons, List.not_mem_nil, or_false] at hrule
    rcases hrule with rfl | rfl | rfl | rfl | rfl | rfl | rfl | rfl | rfl
    · exact absurd hpost (by decide)
    · exact absurd hpost (by decide)
    · exact .inr ⟨"/api/v1/rules/".toList, by decide, by decide +kernel⟩
    · exact absurd hpost (by decide)
    · exact .inr ⟨"/api/v1/rules/evaluate".toList, by decide, by decide +kernel⟩
    · exact absurd hpost (by decide)
    · exact absurd hpost (by decide)
    · exact .inl rfl
    · exact absurd hpost (by decide)

/-- Under the default root the path for listing rules has no parameters. -/
theorem bindings_of_listRules {s : Settings} {table : List Route} (h : routes s = .ok table)
    (hroot : s.apiRoot = "/api/v1") {method : String} {t : Target} {bindings : List Binding}
    (ha : destination table method t = .action (.listRules bindings)) : bindings = [] := by
  obtain ⟨plan, hplan, others, hfits, haction⟩ := exists_plan_of_destination h ha
  rcases List.mem_append.mp hplan with hpage | hrule
  · split at hpage
    · obtain ⟨path, -, rfl⟩ := List.mem_map.mp hpage
      cases haction
    · cases hpage
  · rw [hroot] at hrule
    simp only [List.mem_cons, List.not_mem_nil, or_false] at hrule
    rcases hrule with rfl | rfl | rfl | rfl | rfl | rfl | rfl | rfl | rfl
    -- of all plans only the one for listing has such an action
    all_goals cases haction
    obtain ⟨pattern, hpattern, hmatch⟩ := hfits.path
    have hplain : (Pattern.ofPath ("/api/v1" ++ "/rules" ++ "/")).toOption =
        some [.plain "/api/v1/rules/".toList] := by decide +kernel
    rw [RoutePlan.bodiless] at hpattern
    rw [hpattern] at hplain
    obtain rfl := Option.some.inj hplain
    exact Pattern.bindings_of_match?_plain hmatch

section
variable {id : String}

theorem toList_path_evaluateRule (hid : ∀ c ∈ id.toList, Target.IsDirect c) :
    (Target.ofText ("/api/v1/rules/" ++ id ++ "/evaluate")).path.toList =
      "/api/v1/rules/".toList ++ (id.toList ++ "/evaluate".toList) := by
  have htext : ("/api/v1/rules/" ++ id ++ "/evaluate").toList =
      "/api/v1/rules/".toList ++ (id.toList ++ "/evaluate".toList) := by
    rw [String.toList_append, String.toList_append, List.append_assoc]
  have hdirect : ∀ c ∈ ("/api/v1/rules/" ++ id ++ "/evaluate").toList, Target.IsDirect c := by
    simp only [htext, List.forall_mem_append]
    exact ⟨by simp [Target.IsDirect], hid, by simp [Target.IsDirect]⟩
  rw [Target.path_ofText (htext.trans rfl) (by decide) hdirect, htext]

theorem fits_evaluationPlan_iff (hne : id ≠ "") (hslash : '/' ∉ id.toList) {path : String}
    (hpath : path.toList = "/api/v1/rules/".toList ++ (id.toList ++ "/evaluate".toList))
    {bindings : List Binding} :
    evaluationPlan.Fits "POST" path bindings ↔ bindings = [⟨⟨idName, .step⟩, id⟩] := by
  have hmatch : Pattern.match? [.plain "/api/v1/rules/".toList, .parameter ⟨idName, .step⟩,
      .plain "/evaluate".toList] path.toList = some [⟨⟨idName, .step⟩, id⟩] := by
    rw [hpath, Pattern.match?_step rfl (by simpa using hne) hslash (by simp),
      String.ofList_toList]
  constructor
  · rintro ⟨-, pattern, hpattern, hbindings⟩
    obtain rfl := Except.ok.inj (ofPath_evaluationPlan.symm.trans hpattern)
    exact (Option.some.inj (hmatch.symm.trans hbindings)).symm
  · rintro rfl
    exact ⟨by decide, _, ofPath_evaluationPlan, hmatch⟩

/-- A POST to the path of a rule's evaluation leads to it. -/
theorem destination_evaluateRule {s : Settings} {table : List Route} (h : routes s = .ok table)
    (hroot : s.apiRoot = "/api/v1") (hne : id ≠ "")
    (hid : ∀ c ∈ id.toList, Target.IsDirect c ∧ c ≠ '/') :
    destination table "POST" (.ofText ("/api/v1/rules/" ++ id ++ "/evaluate")) =
      .action (.evaluateRule id) := by
  have hpath := toList_path_evaluateRule fun c hc => (hid c hc).1
  have hslash : '/' ∉ id.toList := fun hmem => (hid _ hmem).2 rfl
  have hplan : evaluationPlan ∈ plans s := by simp [plans, hroot, evaluationPlan]
  have hcount : ("/api/v1/rules/".toList ++ (id.toList ++ "/evaluate".toList)).count '/' = 5 := by
    rw [List.count_append, List.count_append, List.count_eq_zero_of_not_mem hslash]
    decide
  refine destination_of_plans h hplan ((fits_evaluationPlan_iff hne hslash hpath).mpr rfl) ?_
  intro p hp others hfits
  rcases post_plans hroot hp hfits.method with rfl | ⟨start, hfew, hplain⟩
  · rw [(fits_evaluationPlan_iff hne hslash hpath).mp hfits]
  · have hends := hfits.eq_of_plain hplain
    rw [hpath] at hends
    rcases hends with he | he
    · rw [he, hfew] at hcount
      cases hcount
    · rw [he, List.count_append, hfew] at hcount
      cases hcount

end

end Http

end Rulebook
