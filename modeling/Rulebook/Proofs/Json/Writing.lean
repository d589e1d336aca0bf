import Rulebook.Proofs.Json.Alphabet
import Rulebook.Proofs.Json.Escapes
import Rulebook.Proofs.Json.Reading

/-!
Values that are written are read back. It does not matter how they are laid out, as long as the
style puts nothing but spaces around the marks that JSON text asks for.
-/

namespace Rulebook

namespace Value

/-- An entry under a text key. -/
def entry (m : Text × Value) : Value × Value := (.text m.1, m.2)

/-- A value that JSON text holds as it is: there are no numbers in it, and the keys of a dictionary
are distinct texts. -/
inductive IsTextual : Value → Prop
  | null : IsTextual .null
  | bool (b) : IsTextual (.bool b)
  | text {t : Text} : t.IsUnpaired → IsTextual (.text t)
  | list {items} : (∀ v ∈ items, IsTextual v) → IsTextual (.list items)
  | dict {members : List (Text × Value)} : (members.map Prod.fst).Nodup →
      (∀ m ∈ members, m.1.IsUnpaired) → (∀ m ∈ members, IsTextual m.2) →
      IsTextual (.dict (members.map entry))

section
variable {name : Text} {members acc : List (Text × Value)}

theorem put_of_notMem (h : name ∉ acc.map Prod.fst) (v : Value) :
    put (.text name) v (acc.map entry) = (acc ++ [(name, v)]).map entry := by
  induction acc with
  | nil => rfl
  | cons m acc ih =>
      obtain ⟨hm, hacc⟩ := List.ne_and_not_mem_of_not_mem_cons h
      have hkey : ¬ sameKey (.text m.1) (.text name) = true := by
        intro hsame
        exact hm (eq_of_beq hsame).symm
      rw [List.map_cons, entry, put, if_neg hkey, ih hacc]
      rfl

/-- Entries under distinct texts are the entries of their dictionary. -/
theorem ofEntries_entries (h : (members.map Prod.fst).Nodup) :
    ofEntries (members.map entry) = .dict (members.map entry) := by
  have hput : ∀ acc : List (Text × Value), ((acc ++ members).map Prod.fst).Nodup →
      (members.map entry).foldl (fun acc e => put e.1 e.2 acc) (acc.map entry) =
        (acc ++ members).map entry := by
    clear h
    induction members with
    | nil =>
        intro acc _
        rw [List.append_nil]
        rfl
    | cons m members ih =>
        intro acc hacc
        have hm : m.1 ∉ acc.map Prod.fst := by
          rw [List.map_append, List.nodup_append] at hacc
          intro hmem
          exact hacc.2.2 _ hmem _ (List.mem_cons_self ..) rfl
        have hsplit : acc ++ m :: members = (acc ++ [m]) ++ members := by simp
        rw [List.map_cons, List.foldl_cons, entry, put_of_notMem hm, hsplit]
        exact ih _ (hsplit ▸ hacc)
  rw [ofEntries, show ([] : List (Value × Value)) = ([] : List (Text × Value)).map entry from rfl,
    hput [] h, List.nil_append]

end

end Value

namespace Json

/-- A style puts spaces around the brackets and behind commas and colons. -/
structure Style.IsSpaced (style : Style) : Prop where
  first : ∀ level, ∀ p ∈ style.first level, isSpace p = true
  between : ∀ level, ∃ gap, style.between level = .char ',' :: gap ∧ ∀ p ∈ gap, isSpace p = true
  last : ∀ level, ∀ p ∈ style.last level, isSpace p = true
  afterKey : ∃ gap, style.afterKey = .char ':' :: gap ∧ ∀ p ∈ gap, isSpace p = true

theorem isSpace_of_mem_margin (level : Nat) : ∀ p ∈ margin level, isSpace p = true := by
  refine List.forall_mem_cons.mpr ⟨rfl, ?_⟩
  intro p hp
  rw [(List.mem_replicate.mp hp).2]
  rfl

theorem isSpaced_indented : Style.indented.IsSpaced where
  first _ := isSpace_of_mem_margin _
  between _ := ⟨_, rfl, isSpace_of_mem_margin _⟩
  last _ := isSpace_of_mem_margin _
  afterKey := ⟨[' '], rfl, List.forall_mem_singleton.mpr rfl⟩

section
variable {gap t rest : Text} {p : CodePoint}

theorem skip_gap (h : ∀ p ∈ gap, isSpace p = true) : skip (gap ++ t) = skip t := by
  induction gap with
  | nil => rfl
  | cons p gap ih =>
      obtain ⟨hp, hgap⟩ := List.forall_mem_cons.mp h
      exact (List.dropWhile_cons_of_pos hp).trans (ih hgap)

theorem skip_cons (h : isSpace p = false) : skip (p :: t) = p :: t :=
  List.dropWhile_cons_of_neg (Bool.eq_false_iff.mp h)

/-- A text begins with a mark that is no space and closes no list, and goes on to the rest. -/
def Opens (t rest : Text) : Prop :=
  ∃ p more, t = p :: more ∧ isSpace p = false ∧ p ≠ .char ']' ∧ rest.length ≤ more.length

namespace Opens

theorem skip_eq (h : Opens t rest) : skip t = t := by
  obtain ⟨p, more, rfl, hp, -, -⟩ := h
  exact skip_cons hp

theorem skip_gap_eq (h : Opens t rest) (hgap : ∀ p ∈ gap, isSpace p = true) :
    skip (gap ++ t) = t :=
  (skip_gap hgap).trans h.skip_eq

theorem head?_ne (h : Opens t rest) : t.head? ≠ some (.char ']') := by
  obtain ⟨p, more, rfl, -, hp, -⟩ := h
  exact fun he => hp (Option.some.inj he)

theorem length_lt (h : Opens t rest) : rest.length < t.length := by
  obtain ⟨p, more, rfl, -, -, hlength⟩ := h
  exact Nat.lt_succ_of_le hlength

theorem exists_fuel {fuel n : Nat} (h : Opens t rest) (hn : n ≤ rest.length)
    (hfuel : t.length ≤ fuel + n) : ∃ k, fuel = k + 1 := by
  have := h.length_lt
  exact ⟨fuel - 1, by omega⟩

end Opens

end

section
variable {style : Style} {level fuel : Nat} {rest : Text}

/-- What closes a container ends the text of its parts. -/
theorem length_lt_close (close : CodePoint) :
    rest.length < (style.last level ++ close :: rest).length := by
  rw [List.length_append, List.length_cons]
  omega

section
variable {α : Type} {a : α} {as : List α} {text : α → Text → Text} {close : Char}
  {parts : Nat → Text → Except ReadFailure (List α × Text)}

/-- The parts of a container after the first, each of them written by `text`. -/
def writtenParts (style : Style) (level : Nat) (text : α → Text → Text) (rest : Text) :
    List α → Text
  | [] => rest
  | a :: more => style.between level ++ text a (writtenParts style level text rest more)

/-- A part is read back from its text, and the parts go on behind it. -/
structure IsPart (close : Char) (parts : Nat → Text → Except ReadFailure (List α × Text))
    (text : α → Text → Text) (a : α) : Prop where
  opens : ∀ rest, Opens (text a rest) rest
  read : ∀ {fuel} rest, (text a rest).length ≤ fuel + rest.length →
    parts (fuel + 1) (text a rest) = afterPart close (parts fuel) a rest

theorem length_le_writtenParts (h : ∀ a ∈ as, ∀ rest, Opens (text a rest) rest) :
    rest.length ≤ (writtenParts style level text rest as).length := by
  induction as with
  | nil => exact Nat.le_refl _
  | cons a as ih =>
      obtain ⟨ha, has⟩ := List.forall_mem_cons.mp h
      have hopens := (ha (writtenParts style level text rest as)).length_lt
      have hmore := ih has
      rw [writtenParts, List.length_append]
      omega

variable (hs : style.IsSpaced)
include hs

theorem afterPart_last (hclose : isSpace (.char close) = false) (a : α) :
    afterPart close (parts fuel) a (style.last level ++ .char close :: rest) =
      .ok ([a], rest) := by
  unfold afterPart
  rw [skip_gap (hs.last level), skip_cons hclose]
  exact if_pos rfl

theorem afterPart_between {t : Text} (hclose : ',' ≠ close) (ht : Opens t rest) (a : α) :
    afterPart close (parts fuel) a (style.between level ++ t) =
      parts fuel t >>= fun p => .ok (a :: p.1, p.2) := by
  obtain ⟨gap, hbetween, hgap⟩ := hs.between level
  have hne : ¬ some (CodePoint.char ',') = some (.char close) := by
    intro he
    cases he
    exact hclose rfl
  unfold afterPart
  rw [hbetween, List.cons_append, skip_cons (p := .char ',') rfl, List.head?_cons, if_neg hne,
    if_pos rfl, List.tail_cons, ht.skip_gap_eq hgap]

/-- Parts are read back up to what closes their container. -/
theorem parts_written (hclose : ',' ≠ close ∧ isSpace (.char close) = false)
    (h : ∀ b ∈ a :: as, IsPart close parts text b)
    (hfuel : (text a (writtenParts style level text
      (style.last level ++ .char close :: rest) as)).length ≤ fuel + rest.length) :
    parts fuel (text a (writtenParts style level text
      (style.last level ++ .char close :: rest) as)) = .ok (a :: as, rest) := by
  have hend : rest.length < (style.last level ++ .char close :: rest).length := length_lt_close _
  induction as generalizing a fuel with
  | nil =>
      obtain ⟨ha, -⟩ := List.forall_mem_cons.mp h
      rw [writtenParts] at hfuel ⊢
      obtain ⟨fuel, rfl⟩ := (ha.opens _).exists_fuel (Nat.le_of_lt hend) hfuel
      rw [ha.read _ (by omega)]
      exact afterPart_last hs hclose.2 a
  | cons b as ih =>
      obtain ⟨ha, has⟩ := List.forall_mem_cons.mp h
      obtain ⟨hb, hmore⟩ := List.forall_mem_cons.mp has
      rw [writtenParts] at hfuel ⊢
      -- each part takes more of the text than of the fuel
      have hnext := hb.opens (writtenParts style level text
        (style.last level ++ .char close :: rest) as)
      have hlength : (style.last level ++ .char close :: rest).length ≤ (writtenParts style level
          text (style.last level ++ .char close :: rest) as).length :=
        length_le_writtenParts fun c hc => (hmore c hc).opens
      have htaken := (ha.opens _).length_lt.trans_le hfuel
      have hgap := @List.length_append _ (style.between level) (text b
        (writtenParts style level text (style.last level ++ .char close :: rest) as))
      have hnextLength := hnext.length_lt
      obtain ⟨fuel, rfl⟩ := (ha.opens _).exists_fuel (by omega) hfuel
      rw [ha.read _ (by omega), afterPart_between hs hclose.1 hnext, ih has (by omega)]
      rfl

/-- A container that is not empty is read back. -/
theorem readContainer_written {isObject : Bool} {whole : List α → Value} {depth : Nat}
    {parts : Nat → Nat → Text → Except ReadFailure (List α × Text)}
    (hclose : ',' ≠ close ∧ isSpace (.char close) = false)
    (hhead : (text a (writtenParts style level text
      (style.last level ++ .char close :: rest) as)).head? ≠ some (.char close))
    (h : ∀ b ∈ a :: as, IsPart close (fun fuel => parts fuel depth) text b)
    (hfuel : (text a (writtenParts style level text
      (style.last level ++ .char close :: rest) as)).length ≤ fuel + rest.length) :
    readContainer close isObject whole (parts fuel) (depth + 1) (style.first level ++ text a
      (writtenParts style level text (style.last level ++ .char close :: rest) as)) =
        .ok (whole (a :: as), rest) := by
  have hfirst := ((h a (.head _)).opens (writtenParts style level text
    (style.last level ++ .char close :: rest) as)).skip_gap_eq (hs.first level)
  rw [readContainer_succ, hfirst, if_neg hhead, parts_written hs hclose h hfuel]
  rfl

end

end

/-- A value is read back from what is written, as far as it goes, if fuel and depth suffice. -/
structure ReadsBack (style : Style) (v : Value) : Prop where
  opens : ∀ level rest, Opens (written style level v rest) rest
  read : ∀ {bounds fuel depth} level rest,
    (written style level v rest).length ≤ fuel + rest.length → v.levels ≤ depth →
      readValue bounds fuel depth (written style level v rest) = .ok (v, rest)

section
variable {style : Style} {level depth : Nat} {bounds : ReadBounds} {v : Value}
  {items : List Value} {e : Value × Value} {entries : List (Value × Value)} {rest : Text}

/-- The text of an entry of a dictionary, with `rest` after it. -/
def writtenEntry (style : Style) (level : Nat) (e : Value × Value) (rest : Text) : Text :=
  writtenKey style.inAscii e.1 ++ (style.afterKey ++ written style (level + 1) e.2 rest)

theorem writtenItems_eq : writtenItems style level items rest =
    writtenParts style level (written style (level + 1)) rest items := by
  induction items with
  | nil => rfl
  | cons v items ih => rw [writtenItems, ih, writtenParts]

theorem writtenMembers_eq : writtenMembers style level entries rest =
    writtenParts style level (writtenEntry style level) rest entries := by
  induction entries with
  | nil => rfl
  | cons e entries ih =>
      rw [writtenMembers, ih, writtenParts, writtenEntry, List.append_assoc, List.append_assoc]

theorem written_list_cons : written style level (.list (v :: items)) rest =
    .char '[' :: (style.first level ++ written style (level + 1) v (writtenParts style level
      (written style (level + 1)) (style.last level ++ .char ']' :: rest) items)) := by
  rw [written, writtenItems_eq]

theorem written_dict_cons : written style level (.dict (e :: entries)) rest =
    .char '\x7b' :: (style.first level ++ writtenEntry style level e (writtenParts style level
      (writtenEntry style level) (style.last level ++ .char '\x7d' :: rest) entries)) := by
  rw [written, writtenMembers_eq, writtenEntry, List.append_assoc, List.append_assoc]

theorem isPart_item (h : ReadsBack style v) (hdepth : v.levels ≤ depth) :
    IsPart ']' (fun fuel => readItems bounds fuel depth) (written style (level + 1)) v where
  opens := h.opens (level + 1)
  read := by
    intro fuel rest hfuel
    rw [readItems_succ, h.read _ _ hfuel hdepth]
    exact afterItem_eq v rest

theorem opens_writtenEntry {name : Text} (h : ReadsBack style v) (rest : Text) :
    Opens (writtenEntry style level (.text name, v) rest) rest := by
  have hvalue := (h.opens (level + 1) rest).length_lt
  refine ⟨_, _, rfl, rfl, by decide, ?_⟩
  simp only [List.append_eq, List.length_append]
  omega

theorem isPart_entry {name : Text} (hs : style.IsSpaced) (hname : name.IsUnpaired)
    (h : ReadsBack style v) (hdepth : v.levels ≤ depth) :
    IsPart '\x7d' (fun fuel => readMembers bounds fuel depth) (writtenEntry style level)
      (.text name, v) where
  opens := opens_writtenEntry h
  read := by
    intro fuel rest hfuel
    obtain ⟨gap, hafter, hgap⟩ := hs.afterKey
    have hvalue : (written style (level + 1) v rest).length ≤ fuel + rest.length := by
      simp only [writtenEntry, List.length_append] at hfuel
      omega
    have htext : writtenEntry style level (.text name, v) rest =
        .char '\x22' :: (name.flatMap (writtenChar style.inAscii) ++
          .char '\x22' :: (style.afterKey ++ written style (level + 1) v rest)) := by
      simp [writtenEntry, writtenKey, writtenText]
    rw [htext, readMembers_succ, readText_written _ hname]
    change afterKey bounds fuel depth name _ = _
    rw [hafter, List.cons_append, afterKey, skip_cons rfl]
    change readValue bounds fuel depth (skip (gap ++ _)) >>= _ = _
    rw [(h.opens _ _).skip_gap_eq hgap, h.read _ _ hvalue hdepth]
    exact afterMember_eq name v rest

theorem readsBack_text {t : Text} (h : t.IsUnpaired) : ReadsBack style (.text t) := by
  have htext : ∀ level rest, written style level (.text t) rest =
      .char '\x22' :: (t.flatMap (writtenChar style.inAscii) ++ .char '\x22' :: rest) := by
    intro level rest
    simp [written, writtenScalar, writtenText]
  constructor
  · intro level rest
    refine ⟨_, _, htext level rest, rfl, by decide, ?_⟩
    simp only [List.length_append, List.length_cons]
    omega
  · intro bounds fuel depth level rest hfuel _
    rw [htext] at hfuel ⊢
    obtain ⟨fuel, rfl⟩ : ∃ k, fuel = k + 1 := ⟨fuel - 1, by
      simp only [List.length_append, List.length_cons] at hfuel
      omega⟩
    rw [readValue_text, readText_written _ h]
    rfl

theorem opens_writtenParts {α : Type} {a : α} {as : List α} {text : α → Text → Text}
    {close p : CodePoint} (hp : isSpace p = false ∧ p ≠ .char ']')
    (h : ∀ b ∈ a :: as, ∀ rest, Opens (text b rest) rest) (rest : Text) :
    Opens (p :: (style.first level ++ text a (writtenParts style level text
      (style.last level ++ close :: rest) as))) rest := by
  obtain ⟨ha, has⟩ := List.forall_mem_cons.mp h
  have hend : rest.length < (style.last level ++ close :: rest).length := length_lt_close close
  have hparts : (style.last level ++ close :: rest).length ≤
      (writtenParts style level text (style.last level ++ close :: rest) as).length :=
    length_le_writtenParts has
  have hopens :=
    (ha (writtenParts style level text (style.last level ++ close :: rest) as)).length_lt
  refine ⟨p, _, rfl, hp.1, hp.2, ?_⟩
  rw [List.length_append]
  omega

theorem itemLevels_le {n : Nat} : Value.itemLevels items ≤ n ↔ ∀ v ∈ items, v.levels ≤ n := by
  induction items with
  | nil => simp [Value.itemLevels]
  | cons v items ih => rw [Value.itemLevels, Nat.max_le, ih, List.forall_mem_cons]

theorem entryLevels_le {n : Nat} :
    Value.entryLevels entries ≤ n ↔ ∀ e ∈ entries, e.2.levels ≤ n := by
  induction entries with
  | nil => simp [Value.entryLevels]
  | cons e entries ih => rw [Value.entryLevels, Nat.max_le, ih, List.forall_mem_cons]

theorem opens_list (h : ∀ v ∈ items, ReadsBack style v) (level : Nat) (rest : Text) :
    Opens (written style level (.list items) rest) rest := by
  cases items with
  | nil => exact ⟨_, _, rfl, rfl, by decide, Nat.le_succ _⟩
  | cons v items =>
      rw [written_list_cons]
      exact opens_writtenParts (by decide) (fun w hw => (h w hw).opens (level + 1)) rest

theorem readsBack_list (hs : style.IsSpaced) (h : ∀ v ∈ items, ReadsBack style v) :
    ReadsBack style (.list items) where
  opens := opens_list h
  read := by
    intro bounds fuel depth level rest hfuel hdepth
    obtain ⟨fuel, rfl⟩ := (opens_list h level rest).exists_fuel (Nat.le_refl _) hfuel
    obtain ⟨depth, rfl⟩ := Nat.exists_eq_add_one.mpr
      (Nat.lt_of_lt_of_le (Value.levels_pos _) hdepth)
    have hlevels := itemLevels_le.mp (Nat.le_of_succ_le_succ hdepth)
    cases items with
    | nil =>
        rw [written, readValue_list]
        rfl
    | cons v items =>
        have hparts : ∀ w ∈ v :: items, IsPart ']' (fun fuel => readItems bounds fuel depth)
            (written style (level + 1)) w := fun w hw => isPart_item (h w hw) (hlevels w hw)
        rw [written_list_cons, List.length_cons, List.length_append] at hfuel
        rw [written_list_cons, readValue_list,
          readContainer_written hs (by decide) ((h v (.head _)).opens _ _).head?_ne hparts
            (by omega)]

/-- The members of a dictionary have text keys that are read back, and values that are. -/
theorem opens_dict {members : List (Text × Value)} (h : ∀ m ∈ members, ReadsBack style m.2)
    (level : Nat) (rest : Text) :
    Opens (written style level (.dict (members.map Value.entry)) rest) rest := by
  cases members with
  | nil => exact ⟨_, _, rfl, rfl, by decide, Nat.le_succ _⟩
  | cons m members =>
      rw [List.map_cons, written_dict_cons]
      refine opens_writtenParts (by decide) (fun e he => ?_) rest
      obtain ⟨m', hm', rfl⟩ := List.mem_map.mp (List.map_cons .. ▸ he)
      exact opens_writtenEntry (h m' hm')

theorem readsBack_dict {members : List (Text × Value)} (hs : style.IsSpaced)
    (hnames : (members.map Prod.fst).Nodup) (hkeys : ∀ m ∈ members, m.1.IsUnpaired)
    (h : ∀ m ∈ members, ReadsBack style m.2) :
    ReadsBack style (.dict (members.map Value.entry)) where
  opens := opens_dict h
  read := by
    intro bounds fuel depth level rest hfuel hdepth
    obtain ⟨fuel, rfl⟩ := (opens_dict h level rest).exists_fuel (Nat.le_refl _) hfuel
    obtain ⟨depth, rfl⟩ := Nat.exists_eq_add_one.mpr
      (Nat.lt_of_lt_of_le (Value.levels_pos _) hdepth)
    have hlevels := entryLevels_le.mp (Nat.le_of_succ_le_succ hdepth)
    have hparts : ∀ e ∈ members.map Value.entry, IsPart '\x7d'
        (fun fuel => readMembers bounds fuel depth) (writtenEntry style level) e := by
      intro e he
      obtain ⟨m, hm, rfl⟩ := List.mem_map.mp he
      exact isPart_entry hs (hkeys m hm) (h m hm) (hlevels _ he)
    have hwhole := Value.ofEntries_entries hnames
    cases members with
    | nil =>
        rw [List.map_nil, written, readValue_dict]
        rfl
    | cons m members =>
        have hhead : ∀ rest, (writtenEntry style level (Value.entry m) rest).head? ≠
            some (.char '\x7d') := by
          intro rest he
          exact absurd (Option.some.inj he) (by decide)
        rw [List.map_cons] at hparts hwhole hfuel ⊢
        rw [written_dict_cons, List.length_cons, List.length_append] at hfuel
        rw [written_dict_cons, readValue_dict,
          readContainer_written hs (by decide) (hhead _) hparts (by omega), hwhole]

/-- The names of null and of the truth values are read back. -/
theorem readsBack_name (p : CodePoint) (more : Text) (hp : isSpace p = false ∧ p ≠ .char ']')
    (hwritten : ∀ level rest, written style level v rest = p :: (more ++ rest))
    (hread : ∀ bounds fuel depth rest,
      readValue bounds (fuel + 1) depth (p :: (more ++ rest)) = .ok (v, rest)) :
    ReadsBack style v := by
  have hopens : ∀ level rest, Opens (written style level v rest) rest := by
    intro level rest
    refine ⟨_, _, hwritten level rest, hp.1, hp.2, ?_⟩
    rw [List.length_append]
    omega
  constructor
  · exact hopens
  · intro bounds fuel depth level rest hfuel _
    obtain ⟨fuel, rfl⟩ := (hopens level rest).exists_fuel (Nat.le_refl _) hfuel
    rw [hwritten, hread]

theorem readsBack_null : ReadsBack style .null :=
  readsBack_name (.char 'n') "ull" (by decide) (fun _ _ => rfl) fun _ _ _ _ => rfl

theorem readsBack_bool (b : Bool) : ReadsBack style (.bool b) := by
  cases b with
  | false =>
      exact readsBack_name (.char 'f') "alse" (by decide) (fun _ _ => rfl) fun _ _ _ _ => rfl
  | true => exact readsBack_name (.char 't') "rue" (by decide) (fun _ _ => rfl) fun _ _ _ _ => rfl

theorem readsBack_of_isTextual (hs : style.IsSpaced) (h : v.IsTextual) : ReadsBack style v := by
  induction h with
  | null => exact readsBack_null
  | bool b => exact readsBack_bool b
  | text ht => exact readsBack_text ht
  | list h ih => exact readsBack_list hs ih
  | dict hnames hkeys h ih => exact readsBack_dict hs hnames hkeys ih

end

section
variable (style : Style)

mutual

theorem written_append (level : Nat) (v : Value) (rest more : Text) :
    written style level v rest ++ more = written style level v (rest ++ more) := by
  cases v with
  | list items =>
      cases items with
      | nil => rfl
      | cons v items =>
          simp [written, written_append (level + 1) v, writtenItems_append level items]
  | dict entries =>
      cases entries with
      | nil => rfl
      | cons e entries =>
          obtain ⟨k, v⟩ := e
          simp [written, written_append (level + 1) v, writtenMembers_append level entries]
  | _ => exact List.append_assoc ..

theorem writtenItems_append (level : Nat) (items : List Value) (rest more : Text) :
    writtenItems style level items rest ++ more =
      writtenItems style level items (rest ++ more) := by
  cases items with
  | nil => rfl
  | cons v items =>
      simp [writtenItems, written_append (level + 1) v, writtenItems_append level items]

theorem writtenMembers_append (level : Nat) (entries : List (Value × Value)) (rest more : Text) :
    writtenMembers style level entries rest ++ more =
      writtenMembers style level entries (rest ++ more) := by
  cases entries with
  | nil => rfl
  | cons e entries =>
      obtain ⟨k, v⟩ := e
      simp [writtenMembers, written_append (level + 1) v, writtenMembers_append level entries]

end

end

theorem isAscii_margin (level : Nat) : ∀ p ∈ margin level, IsAscii p := by
  refine List.forall_mem_cons.mpr ⟨by decide, ?_⟩
  intro p hp
  rw [(List.mem_replicate.mp hp).2]
  decide

theorem isIn_indented : Style.indented.IsIn IsAscii where
  brackets := by decide
  first _ := isAscii_margin _
  between _ := List.forall_mem_cons.mpr ⟨by decide, isAscii_margin _⟩
  last _ := isAscii_margin _
  afterKey := by decide

/-- What is written with margins is ASCII. -/
theorem writesIn_indented {v : Value} (h : v.IsTextual) : WritesIn IsAscii .indented v := by
  induction h with
  | null => exact writesIn_scalar (fun _ _ => rfl) (by decide)
  | bool b => exact writesIn_scalar (fun _ _ => rfl) (by cases b <;> decide)
  | text ht => exact writesIn_scalar (fun _ _ => rfl) (isAscii_writtenText _)
  | list h ih => exact writesIn_list isIn_indented ih
  | dict hnames hkeys h ih =>
      refine writesIn_dict isIn_indented (fun e he => ?_) (fun e he => ?_)
      · obtain ⟨m, -, rfl⟩ := List.mem_map.mp he
        exact isAscii_writtenText m.1
      · obtain ⟨m, hm, rfl⟩ := List.mem_map.mp he
        exact ih m hm

/-- A value is read back from what is written, with nothing but spaces behind it. -/
theorem read_written {style : Style} {v : Value} {bounds : ReadBounds} {rest : Text}
    (hs : style.IsSpaced) (h : v.IsTextual) (hdepth : v.levels ≤ bounds.depth)
    (hrest : skip rest = []) : read bounds (written style 0 v [] ++ rest) = .ok v := by
  have hback := readsBack_of_isTextual hs h
  rw [written_append, List.nil_append, read_eq, (hback.opens 0 rest).skip_eq,
    hback.read 0 rest (by omega) hdepth]
  change (if (skip rest).isEmpty then _ else _) = _
  rw [hrest]
  rfl

end Json

end Rulebook
