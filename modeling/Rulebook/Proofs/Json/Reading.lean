import Rulebook.Proofs.Json.Ending

/-!
How values are read. Neither a mark behind a value changes it nor more fuel than it needs, so that a
text is read within a longer one as it is by itself.
-/

namespace Rulebook.Json

section
variable {bounds : ReadBounds} {fuel depth : Nat} {t rest : Text}

theorem readValue_text : readValue bounds (fuel + 1) depth (.char '\x22' :: rest) =
    readText rest >>= fun p => .ok (.text p.1, p.2) :=
  rfl

theorem readValue_list_succ : readValue bounds (fuel + 1) (depth + 1) (.char '[' :: rest) =
    match skip rest with
    | .char ']' :: more => .ok (.list [], more)
    | items => readItems bounds fuel depth items >>= fun p => .ok (.list p.1, p.2) :=
  rfl

theorem readValue_dict_succ : readValue bounds (fuel + 1) (depth + 1) (.char '\x7b' :: rest) =
    match skip rest with
    | .char '\x7d' :: more => .ok (.dict [], more)
    | members =>
      readMembers bounds fuel depth members >>= fun p => .ok (Value.ofEntries p.1, p.2) :=
  rfl

/-- How a container is read after the mark that opens it, given how its parts are read. -/
def readContainer {α : Type} (close : Char) (isObject : Bool) (whole : List α → Value)
    (parts : Nat → Text → Except ReadFailure (List α × Text)) (depth : Nat) (rest : Text) :
    Except ReadFailure (Value × Text) :=
  match depth with
  | 0 => .error (.tooDeep isObject)
  | depth + 1 =>
    if (skip rest).head? = some (.char close) then .ok (whole [], (skip rest).tail)
    else parts depth (skip rest) >>= fun p => .ok (whole p.1, p.2)

theorem readContainer_succ {α : Type} {close : Char} {isObject : Bool} {whole : List α → Value}
    {parts : Nat → Text → Except ReadFailure (List α × Text)} :
    readContainer close isObject whole parts (depth + 1) rest =
      if (skip rest).head? = some (.char close) then .ok (whole [], (skip rest).tail)
      else parts depth (skip rest) >>= fun p => .ok (whole p.1, p.2) :=
  rfl

theorem head?_ne_of_forall_ne {p : CodePoint} (h : ∀ more, t = p :: more → False) :
    t.head? ≠ some p :=
  fun hhead => (List.head?_eq_some_iff.mp hhead).elim h

theorem readValue_list : readValue bounds (fuel + 1) depth (.char '[' :: rest) =
    readContainer ']' false Value.list (readItems bounds fuel) depth rest := by
  cases depth with
  | zero => rfl
  | succ depth =>
      rw [readValue_list_succ, readContainer_succ]
      split
      · rename_i more hskip
        rw [hskip]
        rfl
      · rename_i hne
        exact (if_neg (head?_ne_of_forall_ne hne)).symm

theorem readValue_dict : readValue bounds (fuel + 1) depth (.char '\x7b' :: rest) =
    readContainer '\x7d' true Value.ofEntries (readMembers bounds fuel) depth rest := by
  cases depth with
  | zero => rfl
  | succ depth =>
      rw [readValue_dict_succ, readContainer_succ]
      split
      · rename_i more hskip
        rw [hskip]
        rfl
      · rename_i hne
        exact (if_neg (head?_ne_of_forall_ne hne)).symm

theorem readValue_scalar (htext : t.head? ≠ some (.char '\x22'))
    (hlist : t.head? ≠ some (.char '[')) (hdict : t.head? ≠ some (.char '\x7b')) :
    readValue bounds (fuel + 1) depth t = readScalar bounds t := by
  rw [readValue]
  · rintro rest rfl
    exact htext rfl
  · rintro rest rfl
    exact hlist rfl
  · rintro rest rfl
    exact hdict rfl

/-- How the items go on after one of them. -/
def afterItem (bounds : ReadBounds) (fuel depth : Nat) (v : Value) (rest : Text) :
    Except ReadFailure (List Value × Text) :=
  match skip rest with
  | .char ']' :: more => .ok ([v], more)
  | .char ',' :: more => readItems bounds fuel depth (skip more) >>= fun p => .ok (v :: p.1, p.2)
  | _ => .error .malformed

theorem readItems_succ : readItems bounds (fuel + 1) depth t =
    readValue bounds fuel depth t >>= fun p => afterItem bounds fuel depth p.1 p.2 :=
  rfl

/-- How the members go on after the value of one of them. -/
def afterMember (bounds : ReadBounds) (fuel depth : Nat) (key : Text) (v : Value) (rest : Text) :
    Except ReadFailure (List (Value × Value) × Text) :=
  match skip rest with
  | .char '\x7d' :: more => .ok ([(.text key, v)], more)
  | .char ',' :: more =>
    readMembers bounds fuel depth (skip more) >>= fun p => .ok ((.text key, v) :: p.1, p.2)
  | _ => .error .malformed

/-- How the parts of a container go on after one of them. -/
def afterPart {α : Type} (close : Char) (parts : Text → Except ReadFailure (List α × Text)) (a : α)
    (rest : Text) : Except ReadFailure (List α × Text) :=
  if (skip rest).head? = some (.char close) then .ok ([a], (skip rest).tail)
  else if (skip rest).head? = some (.char ',') then
    parts (skip (skip rest).tail) >>= fun p => .ok (a :: p.1, p.2)
  else .error .malformed

theorem afterItem_eq (v : Value) (rest : Text) : afterItem bounds fuel depth v rest =
    afterPart ']' (readItems bounds fuel depth) v rest := by
  unfold afterItem afterPart
  split
  · rename_i more hskip
    rw [hskip]
    rfl
  · rename_i more hskip
    rw [hskip]
    rfl
  · rename_i hclose hcomma
    rw [if_neg (head?_ne_of_forall_ne hclose), if_neg (head?_ne_of_forall_ne hcomma)]

theorem afterMember_eq (key : Text) (v : Value) (rest : Text) :
    afterMember bounds fuel depth key v rest =
      afterPart '\x7d' (readMembers bounds fuel depth) (.text key, v) rest := by
  unfold afterMember afterPart
  split
  · rename_i more hskip
    rw [hskip]
    rfl
  · rename_i more hskip
    rw [hskip]
    rfl
  · rename_i hclose hcomma
    rw [if_neg (head?_ne_of_forall_ne hclose), if_neg (head?_ne_of_forall_ne hcomma)]

/-- How a member goes on after its name. -/
def afterKey (bounds : ReadBounds) (fuel depth : Nat) (key rest : Text) :
    Except ReadFailure (List (Value × Value) × Text) :=
  match skip rest with
  | .char ':' :: more =>
    readValue bounds fuel depth (skip more) >>= fun p => afterMember bounds fuel depth key p.1 p.2
  | _ => .error .malformed

theorem readMembers_succ : readMembers bounds (fuel + 1) depth (.char '\x22' :: rest) =
    readText rest >>= fun p => afterKey bounds fuel depth p.1 p.2 :=
  rfl

theorem readMembers_of_head?_ne (h : t.head? ≠ some (.char '\x22')) :
    readMembers bounds fuel depth t = .error .malformed := by
  cases fuel with
  | zero => rfl
  | succ fuel =>
      rw [readMembers]
      rintro rest rfl
      exact h rfl

end

/-- The second outcome is the first one with a text behind what is left, unless that is
malformed. -/
def CarriesOver {α : Type} (u : Text) (r r' : Except ReadFailure (α × Text)) : Prop :=
  r ≠ .error .malformed → r' = r.map (leaving u)

section
variable {α β : Type} {u t rest : Text} {r r' : Except ReadFailure (α × Text)}

theorem carriesOver_malformed : CarriesOver u (.error .malformed) r' := fun h => absurd rfl h

theorem carriesOver_ok (a : α) : CarriesOver u (.ok (a, t)) (.ok (a, t ++ u)) := fun _ => rfl

theorem CarriesOver.bind {f g : α × Text → Except ReadFailure (β × Text)} (h : CarriesOver u r r')
    (hnext : ∀ a rest, CarriesOver u (f (a, rest)) (g (a, rest ++ u))) :
    CarriesOver u (r >>= f) (r' >>= g) := by
  intro hne
  cases r with
  | error failure =>
      rw [h fun he => hne (by cases he; rfl)]
      rfl
  | ok p =>
      rw [h nofun]
      exact hnext p.1 p.2 hne

theorem CarriesOver.map (h : CarriesOver u r r') (f : α → β) :
    CarriesOver u (r >>= fun p => .ok (f p.1, p.2)) (r' >>= fun p => .ok (f p.1, p.2)) :=
  h.bind fun a _ => carriesOver_ok (f a)

/-- A reader that finds nothing in an empty text may begin after spaces. -/
theorem carriesOver_skip {f g : Text → Except ReadFailure (α × Text)}
    (hnil : f [] = .error .malformed) (h : ∀ t, CarriesOver u (f t) (g (t ++ u))) :
    CarriesOver u (f (skip t)) (g (skip (t ++ u))) := by
  by_cases hskip : skip t = []
  · rw [hskip, hnil]
    exact carriesOver_malformed
  · rw [skip_append hskip]
    exact h (skip t)

theorem carriesOver_readText (t u : Text) : CarriesOver u (readText t) (readText (t ++ u)) := by
  unfold readText
  cases h : readParts t with
  | none => exact carriesOver_malformed
  | some p =>
      rw [readParts_append h]
      exact carriesOver_ok _

variable {bounds bounds' : ReadBounds} {fuel fuel' depth : Nat}

theorem readValue_nil : readValue bounds fuel depth [] = .error .malformed := by
  cases fuel with
  | zero => rfl
  | succ fuel =>
      rw [readValue_scalar (by simp) (by simp) (by simp)]
      rfl

theorem readItems_nil : readItems bounds fuel depth [] = .error .malformed := by
  cases fuel with
  | zero => rfl
  | succ fuel =>
      rw [readItems_succ, readValue_nil]
      rfl

theorem readMembers_nil : readMembers bounds fuel depth [] = .error .malformed :=
  readMembers_of_head?_ne (by simp)

section
variable {close : Char} {parts parts' : Nat → Text → Except ReadFailure (List α × Text)}
  (hnil : ∀ depth, parts depth [] = .error .malformed)
  (hparts : ∀ depth t, CarriesOver u (parts depth t) (parts' depth (t ++ u)))
include hnil hparts

theorem carriesOver_readContainer (isObject : Bool) (whole : List α → Value) (depth : Nat)
    (rest : Text) : CarriesOver u (readContainer close isObject whole parts depth rest)
      (readContainer close isObject whole parts' depth (rest ++ u)) := by
  cases depth with
  | zero => exact fun _ => rfl
  | succ depth =>
      rw [readContainer_succ, readContainer_succ]
      rcases hskip : skip rest with _ | ⟨c, more⟩
      · rw [hnil]
        exact carriesOver_malformed
      rw [skip_append_of_cons hskip, List.head?_cons, List.head?_cons]
      split
      · exact carriesOver_ok _
      · exact (hparts depth (c :: more)).map whole

theorem carriesOver_afterPart (depth : Nat) (a : α) (rest : Text) :
    CarriesOver u (afterPart close (parts depth) a rest)
      (afterPart close (parts' depth) a (rest ++ u)) := by
  unfold afterPart
  rcases hskip : skip rest with _ | ⟨c, more⟩
  · exact carriesOver_malformed
  rw [skip_append_of_cons hskip, List.head?_cons, List.head?_cons]
  split
  · exact carriesOver_ok _
  split
  · exact (carriesOver_skip (hnil depth) (hparts depth)).map (a :: ·)
  · exact carriesOver_malformed

end

section
variable (hitems : ∀ depth t, CarriesOver u (readItems bounds fuel depth t)
    (readItems bounds' fuel' depth (t ++ u)))
  (hmembers : ∀ depth t, CarriesOver u (readMembers bounds fuel depth t)
    (readMembers bounds' fuel' depth (t ++ u)))

include hitems in
theorem carriesOver_afterItem (depth : Nat) (v : Value) (rest : Text) :
    CarriesOver u (afterItem bounds fuel depth v rest)
      (afterItem bounds' fuel' depth v (rest ++ u)) := by
  rw [afterItem_eq, afterItem_eq]
  exact carriesOver_afterPart (fun _ => readItems_nil) hitems depth v rest

include hmembers

theorem carriesOver_afterMember (depth : Nat) (key : Text) (v : Value) (rest : Text) :
    CarriesOver u (afterMember bounds fuel depth key v rest)
      (afterMember bounds' fuel' depth key v (rest ++ u)) := by
  rw [afterMember_eq, afterMember_eq]
  exact carriesOver_afterPart (fun _ => readMembers_nil) hmembers depth (.text key, v) rest

theorem carriesOver_afterKey (hvalue : ∀ depth t, CarriesOver u (readValue bounds fuel depth t)
      (readValue bounds' fuel' depth (t ++ u))) (depth : Nat) (key rest : Text) :
    CarriesOver u (afterKey bounds fuel depth key rest)
      (afterKey bounds' fuel' depth key (rest ++ u)) := by
  unfold afterKey
  rcases hskip : skip rest with _ | ⟨c, more⟩
  · exact carriesOver_malformed
  rw [skip_append_of_cons hskip]
  by_cases hcolon : c = .char ':'
  · subst hcolon
    exact (carriesOver_skip readValue_nil (hvalue depth)).bind
      (carriesOver_afterMember hmembers depth key)
  · split
    · simp_all
    · exact carriesOver_malformed

end

theorem carriesOver_readValue (hu : IsStop u) (hbounds : bounds.digits = bounds'.digits)
    (hitems : ∀ depth t, CarriesOver u (readItems bounds fuel depth t)
      (readItems bounds' fuel' depth (t ++ u)))
    (hmembers : ∀ depth t, CarriesOver u (readMembers bounds fuel depth t)
      (readMembers bounds' fuel' depth (t ++ u))) (depth : Nat) (t : Text) :
    CarriesOver u (readValue bounds (fuel + 1) depth t)
      (readValue bounds' (fuel' + 1) depth (t ++ u)) := by
  by_cases htext : t.head? = some (.char '\x22')
  · obtain ⟨rest, rfl⟩ := List.head?_eq_some_iff.mp htext
    rw [List.cons_append, readValue_text, readValue_text]
    exact (carriesOver_readText rest u).map Value.text
  by_cases hlist : t.head? = some (.char '[')
  · obtain ⟨rest, rfl⟩ := List.head?_eq_some_iff.mp hlist
    rw [List.cons_append, readValue_list, readValue_list]
    exact carriesOver_readContainer (fun _ => readItems_nil) hitems false _ depth rest
  by_cases hdict : t.head? = some (.char '\x7b')
  · obtain ⟨rest, rfl⟩ := List.head?_eq_some_iff.mp hdict
    rw [List.cons_append, readValue_dict, readValue_dict]
    exact carriesOver_readContainer (fun _ => readMembers_nil) hmembers true _ depth rest
  · rw [readValue_scalar htext hlist hdict, readValue_scalar
      (hu.head?_append_ne (by decide) htext) (hu.head?_append_ne (by decide) hlist)
      (hu.head?_append_ne (by decide) hdict)]
    rw [readScalar_append hu, readScalar_congr hbounds]
    exact fun _ => rfl

/-- What is read does not depend on a stop behind it, nor on the fuel if that lasts. -/
theorem carriesOver_read (hu : IsStop u) (hbounds : bounds.digits = bounds'.digits)
    (hfuel : fuel ≤ fuel') :
    (∀ depth t, CarriesOver u (readValue bounds fuel depth t)
        (readValue bounds' fuel' depth (t ++ u))) ∧
      (∀ depth t, CarriesOver u (readItems bounds fuel depth t)
        (readItems bounds' fuel' depth (t ++ u))) ∧
      ∀ depth t, CarriesOver u (readMembers bounds fuel depth t)
        (readMembers bounds' fuel' depth (t ++ u)) := by
  induction fuel generalizing fuel' with
  | zero =>
      exact ⟨fun _ _ => carriesOver_malformed, fun _ _ => carriesOver_malformed,
        fun _ _ => carriesOver_malformed⟩
  | succ fuel ih =>
      obtain ⟨fuel', rfl⟩ : ∃ n, fuel' = n + 1 := ⟨fuel' - 1, by omega⟩
      obtain ⟨hvalue, hitems, hmembers⟩ := ih (Nat.le_of_succ_le_succ hfuel)
      refine ⟨carriesOver_readValue hu hbounds hitems hmembers, fun depth t => ?_,
        fun depth t => ?_⟩
      · rw [readItems_succ, readItems_succ]
        exact (hvalue depth t).bind (carriesOver_afterItem hitems depth)
      · by_cases htext : t.head? = some (.char '\x22')
        · obtain ⟨rest, rfl⟩ := List.head?_eq_some_iff.mp htext
          rw [List.cons_append, readMembers_succ, readMembers_succ]
          exact (carriesOver_readText rest u).bind (carriesOver_afterKey hmembers hvalue depth)
        · rw [readMembers_of_head?_ne htext]
          exact carriesOver_malformed

theorem skip_append_of_nil (h : skip t = []) : skip (t ++ u) = skip u := by
  unfold skip at h ⊢
  rw [List.dropWhile_append, if_pos (by rw [h]; rfl)]

theorem read_eq : read bounds t =
    readValue bounds (2 * t.length + 2) bounds.depth (skip t) >>= fun p =>
      if (skip p.2).isEmpty then .ok p.1 else .error .malformed :=
  rfl

theorem exists_of_read_eq_ok {v : Value} (h : read bounds t = .ok v) : ∃ rest, skip rest = [] ∧
    readValue bounds (2 * t.length + 2) bounds.depth (skip t) = .ok (v, rest) := by
  rw [read_eq] at h
  cases hread : readValue bounds (2 * t.length + 2) bounds.depth (skip t) with
  | error failure =>
      rw [hread] at h
      cases h
  | ok p =>
      rw [hread] at h
      change (if (skip p.2).isEmpty then _ else _) = _ at h
      split at h
      · rename_i hempty
        cases h
        exact ⟨p.2, List.isEmpty_iff.mp hempty, rfl⟩
      · cases h

theorem read_of_read? {v : Value} (h : read? t = some v) :
    read ⟨t.length, t.length⟩ t = .ok v := by
  unfold read? at h
  cases hread : read ⟨t.length, t.length⟩ t with
  | error failure =>
      rw [hread] at h
      cases h
  | ok w =>
      rw [hread] at h
      cases h
      rfl

/-- The marks and letters that begin a value which is no number without a sign. -/
def openingMarks : Text := ['\x22', '[', '\x7b', '-', 'n', 't', 'f', 'N', 'I']

theorem readMagnitude_of_not_digit {p : CodePoint} (h : p.isDigit = false) (negative : Bool) :
    readMagnitude bounds negative (p :: t) = .error .malformed := by
  have hzero : (p :: t).head? ≠ some (.char '0') := by
    rintro ⟨⟩
    cases h
  have hdigits : (splitWhole (p :: t)).1 = [] := by
    rw [splitWhole_of_head?_ne hzero]
    exact List.takeWhile_cons_of_neg (by simp [h])
  unfold readMagnitude
  simp only [hdigits, List.isEmpty_nil, if_true]

theorem readScalar_of_not_opening {p : CodePoint} (hmark : p ∉ openingMarks)
    (hdigit : p.isDigit = false) : readScalar bounds (p :: t) = .error .malformed := by
  have hnames : ∀ entry ∈ names, ∃ q ∈ openingMarks, entry.1.head? = some q := by decide
  have hnone : names.find? (fun entry => Text.startsWith entry.1 (p :: t)) = none := by
    refine List.find?_eq_none.mpr fun entry hentry hstart => ?_
    obtain ⟨q, hq, hhead⟩ := hnames entry hentry
    obtain ⟨more, hmore⟩ := List.head?_eq_some_iff.mp hhead
    rw [Text.startsWith, hmore, List.isPrefixOf_cons_cons, Bool.and_eq_true, beq_iff_eq] at hstart
    exact hmark (hstart.1 ▸ hq)
  have hminus : (p :: t).head? ≠ some (.char '-') := by
    rintro ⟨⟩
    exact hmark (by decide)
  unfold readScalar
  rw [hnone]
  dsimp only
  rw [readNumber_of_head?_ne hminus, readMagnitude_of_not_digit hdigit]

/-- A text that begins like no value is no JSON text. -/
theorem read_of_not_opening {p : CodePoint} (hskip : skip t = p :: rest) (hmark : p ∉ openingMarks)
    (hdigit : p.isDigit = false) : read bounds t = .error .malformed := by
  have hne : ∀ q ∈ openingMarks, (p :: rest).head? ≠ some q := by
    rintro q hq ⟨⟩
    exact hmark hq
  rw [read_eq, hskip, readValue_scalar (hne _ (by decide)) (hne _ (by decide)) (hne _ (by decide)),
    readScalar_of_not_opening hmark hdigit]
  rfl

theorem readValue_of_read_eq_tooDeep {isObject : Bool}
    (h : read bounds t = .error (.tooDeep isObject)) :
    readValue bounds (2 * t.length + 2) bounds.depth (skip t) = .error (.tooDeep isObject) := by
  rw [read_eq] at h
  cases hread : readValue bounds (2 * t.length + 2) bounds.depth (skip t) with
  | error failure =>
      rw [hread] at h
      cases h
      rfl
  | ok p =>
      rw [hread] at h
      change (if (skip p.2).isEmpty then _ else _) = _ at h
      split at h <;> cases h

theorem afterKey_colon (key : Text) : afterKey bounds fuel depth key (": " ++ t) =
    readValue bounds fuel depth (skip t) >>= fun p =>
      afterMember bounds fuel depth key p.1 p.2 :=
  rfl

section
variable (hu : IsStop u) (hbounds : bounds.digits = bounds'.digits)
  (hfuel : 2 * t.length + 2 ≤ fuel)
include hu hbounds hfuel

/-- A text by itself is read as it is before a stop. -/
theorem carriesOver_skip_read :
    CarriesOver u (readValue bounds (2 * t.length + 2) bounds.depth (skip t))
      (readValue bounds' fuel bounds.depth (skip (t ++ u))) :=
  carriesOver_skip readValue_nil ((carriesOver_read hu hbounds hfuel).1 bounds.depth)

theorem afterKey_of_read_eq_ok (key : Text) {v : Value} (h : read bounds t = .ok v) :
    afterKey bounds' fuel bounds.depth key (": " ++ (t ++ u)) =
      afterMember bounds' fuel bounds.depth key v u := by
  obtain ⟨rest, hrest, hread⟩ := exists_of_read_eq_ok h
  have hover := carriesOver_skip_read hu hbounds hfuel
  rw [hread] at hover
  rw [afterKey_colon, hover nofun]
  change afterMember bounds' fuel bounds.depth key v (rest ++ u) = _
  unfold afterMember
  rw [skip_append_of_nil hrest]

theorem afterKey_of_read_eq_tooDeep (key : Text) {isObject : Bool}
    (h : read bounds t = .error (.tooDeep isObject)) :
    afterKey bounds' fuel bounds.depth key (": " ++ (t ++ u)) = .error (.tooDeep isObject) := by
  have hover := carriesOver_skip_read hu hbounds hfuel
  rw [readValue_of_read_eq_tooDeep h] at hover
  rw [afterKey_colon, hover nofun]
  rfl

end

end

end Rulebook.Json
