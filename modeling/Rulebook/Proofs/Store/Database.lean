import Rulebook.Proofs.Store.Book
import Rulebook.Store.Database

/-!
What uses of a database leave of it. Connections come and go without a change to the book; each
stored rule uses up a number.
-/

namespace Rulebook

/-- A rule has its id and the time of its creation from a number. -/
structure StoredRule.IsNumbered (source : RowSource) (n : Nat) (rule : StoredRule) : Prop where
  id : rule.id = source.idAt n
  created : rule.created = source.timeAt n

/-- Ids are never repeated up to that of a number. -/
def RowSource.IsFresh (source : RowSource) (n : Nat) : Prop :=
  ∀ i ≤ n, ∀ j ≤ n, source.idAt i = source.idAt j → i = j

theorem RowSource.IsFresh.of_le {source : RowSource} {m n : Nat} (h : source.IsFresh n)
    (hle : m ≤ n) : source.IsFresh m :=
  fun i hi j hj => h i (hi.trans hle) j (hj.trans hle)

theorem RowSource.isFresh_counting (n : Nat) : counting.IsFresh n :=
  fun _ _ _ _ he => StoredRule.idOfNumber_injective he

namespace Database

/-- One database is the other but for its connection. -/
structure Keeps (d d' : Database) : Prop where
  url : d'.url = d.url
  manual : d'.manual = d.manual
  book : d'.book = d.book
  source : d'.source = d.source
  nextNumber : d'.nextNumber = d.nextNumber

/-- A database that answers, with a book whose rules have numbers that were used up. -/
structure IsReady (d : Database) : Prop where
  answers : d.failure? = none
  hasBook : ∃ book, d.book = some book
  numbered : ∀ book ∈ d.book, ∀ rule ∈ book.rules, ∃ n < d.nextNumber, rule.IsNumbered d.source n

/-- No number had the id of the next one, nor had any two numbers one id. -/
def HasFreshIds (d : Database) : Prop := d.source.IsFresh d.nextNumber

section
variable {d d' : Database} {notes : List Note}

theorem Keeps.hasFreshIds (h : d.Keeps d') (hd : d.HasFreshIds) : d'.HasFreshIds := by
  unfold HasFreshIds
  rw [h.source, h.nextNumber]
  exact hd

theorem Keeps.refl (d : Database) : d.Keeps d := ⟨rfl, rfl, rfl, rfl, rfl⟩

theorem failure?_congr (hurl : d'.url = d.url) (hmanual : d'.manual = d.manual) :
    d'.failure? = d.failure? := by
  rw [failure?, failure?, hurl, hmanual]

theorem Keeps.isReady (h : d.Keeps d') (hd : d.IsReady) : d'.IsReady where
  answers := (failure?_congr h.url h.manual).trans hd.answers
  hasBook := h.book ▸ hd.hasBook
  numbered := by
    rw [h.book, h.source, h.nextNumber]
    exact hd.numbered

theorem connect_keeps (h : d.connect = .ok (d', notes)) : d.Keeps d' := by
  unfold connect at h
  split at h
  · cases h
    exact .refl d
  · split at h
    · cases h
    · cases h
      exact ⟨rfl, rfl, rfl, rfl, rfl⟩

theorem prepare_keeps (h : d.prepare = .ok (d', notes)) : d.Keeps d' := by
  unfold prepare at h
  split at h
  · cases h
    exact .refl d
  · split at h
    · cases h
    · rename_i connected notes' hconnect
      cases h
      have hk := connect_keeps hconnect
      exact ⟨hk.url, hk.manual, hk.book, hk.source, hk.nextNumber⟩

theorem probe_keeps (d : Database) : d.Keeps d.probe.2.1 := by
  unfold probe
  split
  · exact .refl d
  · rename_i d' notes h
    dsimp only
    split <;> exact connect_keeps h

/-- A database that answers can be connected to, so that its sessions can be prepared. -/
theorem exists_prepare (h : d.failure? = none) : ∃ d' notes, d.prepare = .ok (d', notes) := by
  have hread : ∃ a, Address.readUsable d.url = .ok a := by
    unfold failure? at h
    split at h
    · cases h
    · exact ⟨_, by assumption⟩
  obtain ⟨a, ha⟩ := hread
  unfold prepare connect
  split
  · exact ⟨d, [], rfl⟩
  · by_cases hc : d.connected = true
    · simp [hc]
    · simp [hc, ha]

theorem failure?_of_probe (h : d.probe.1 = true) : d.failure? = none := by
  unfold probe at h
  split at h
  · cases h
  · rename_i d' notes hconnect
    have hk := connect_keeps hconnect
    rw [← failure?_congr hk.url hk.manual]
    cases hf : d'.failure? with
    | none => rfl
    | some failure => simp [hf] at h

/-- A database that is made ready for the first time has an empty book. -/
theorem setUp_eq (hbook : d.book = none) (h : d.setUp.1 = true) :
    d.probe.1 = true ∧ d.setUp.2.1 = { d.probe.2.1 with book := some .empty } := by
  have hanswers : d.probe.1 = true := by
    by_contra hno
    simp [setUp, hno] at h
  exact ⟨hanswers, by simp [setUp, hanswers, (probe_keeps d).book, hbook]⟩

theorem source_setUp (d : Database) : d.setUp.2.1.source = d.source := by
  have hk := probe_keeps d
  unfold setUp
  generalize d.probe = probed at hk ⊢
  obtain ⟨answers, d', notes⟩ := probed
  dsimp only
  split <;> exact hk.source

theorem isReady_setUp (hbook : d.book = none) (h : d.setUp.1 = true) : d.setUp.2.1.IsReady := by
  obtain ⟨hanswers, hempty⟩ := setUp_eq hbook h
  have hk := probe_keeps d
  rw [hempty]
  have hanswersStill : { d.probe.2.1 with book := some .empty }.failure? = none :=
    (failure?_congr hk.url hk.manual).trans (failure?_of_probe hanswers)
  refine ⟨hanswersStill, ⟨.empty, rfl⟩, ?_⟩
  intro book hb rule hrule
  obtain rfl := Option.some.inj hb
  cases hrule

theorem book?_of_isReady (h : d.IsReady) (q : StoreQuery) {book : Book} (hb : d.book = some book) :
    d.book? q = .ok book := by
  simp [book?, h.answers, hb]

theorem find?_of_isReady (h : d.IsReady) {book : Book} (hb : d.book = some book) (id : String) :
    d.find? id = .ok (book.find? id) := by
  rw [find?, book?_of_isReady h _ hb]
  rfl

theorem book_of_book? {q : StoreQuery} {book : Book} (h : d.book? q = .ok book) :
    d.book = some book := by
  unfold book? at h
  split at h
  · cases h
  · rename_i hb
    rw [hb, Except.ok.inj h]
  · cases h

theorem find?_eq_ok {id : String} {found : Option StoredRule} (h : d.find? id = .ok found) :
    ∃ book, d.book = some book ∧ book.find? id = found := by
  unfold find? at h
  cases hb : d.book? (.byId id) with
  | error failure =>
      rw [hb] at h
      cases h
  | ok book =>
      rw [hb] at h
      exact ⟨book, book_of_book? hb, Except.ok.inj h⟩

variable {name : String} {text : Text} {tree : Value}

/-- A rule that is stored comes last in the book, with the next number and an id of its own. -/
theorem add_ok {rule : StoredRule} (h : d.add name text tree = (.ok rule, d')) :
    rule = ⟨d.source.idAt d.nextNumber, name, text, tree, d.source.timeAt d.nextNumber⟩ ∧
      Text.unwritable? .utf8 text = none ∧ ∃ book, d.book = some book ∧
      (∀ other ∈ book.rules, other.id ≠ rule.id) ∧
      d' = { d with nextNumber := d.nextNumber + 1, book := some (book.add rule) } := by
  unfold add at h
  dsimp only at h
  split at h
  · cases h
  · split at h
    · cases h
    · cases h
    · rename_i book hbook hwritable
      split at h
      · cases h
      · rename_i hnew
        simp only [Prod.mk.injEq, Except.ok.injEq] at h
        obtain ⟨rfl, rfl⟩ := h
        refine ⟨rfl, hwritable, book, book_of_book? hbook, ?_, rfl⟩
        simpa [Book.find?] using hnew

/-- A text is stored whose tree nests not too deep, if the next id is a new one. -/
theorem add_eq_ok (hd : d.IsReady) {book : Book} (hb : d.book = some book) (name : String)
    (hnew : ∀ other ∈ book.rules, other.id ≠ d.source.idAt d.nextNumber)
    (hlevels : tree.levels < storeDepth) (hwritable : Text.unwritable? .utf8 text = none) :
    ∃ rule d', d.add name text tree = (.ok rule, d') := by
  have hnone := Book.find?_eq_none hnew
  simp [add, hlevels.not_ge, book?_of_isReady hd _ hb, hwritable, hnone]

/-- A rule that cannot be stored uses up the number all the same. -/
theorem add_error {failure : StoreFailure} (h : d.add name text tree = (.error failure, d')) :
    d' = { d with nextNumber := d.nextNumber + 1 } := by
  unfold add at h
  dsimp only at h
  split at h
  · cases h
    rfl
  · split at h
    · cases h
      rfl
    · cases h
      rfl
    · split at h <;> cases h
      rfl

theorem IsReady.skipNumber (h : d.IsReady) : { d with nextNumber := d.nextNumber + 1 }.IsReady where
  answers := h.answers
  hasBook := h.hasBook
  numbered book hb rule hrule := by
    obtain ⟨n, hn, hid⟩ := h.numbered book hb rule hrule
    exact ⟨n, Nat.lt_succ_of_lt hn, hid⟩

theorem IsReady.add (h : d.IsReady) {book : Book} (hb : d.book = some book) {rule : StoredRule}
    (hnext : rule.IsNumbered d.source d.nextNumber) :
    { d with nextNumber := d.nextNumber + 1, book := some (book.add rule) }.IsReady where
  answers := h.answers
  hasBook := ⟨_, rfl⟩
  numbered := by
    intro book' hb' other hother
    obtain rfl := Option.some.inj hb'
    rcases List.mem_append.mp hother with hother | hother
    · obtain ⟨n, hn, hid⟩ := h.numbered book hb other hother
      exact ⟨n, Nat.lt_succ_of_lt hn, hid⟩
    · obtain rfl := List.mem_singleton.mp hother
      exact ⟨d.nextNumber, Nat.lt_succ_self _, hnext⟩

theorem IsReady.remove (h : d.IsReady) (id : String) : (d.remove id).IsReady where
  answers := h.answers
  hasBook := by
    obtain ⟨book, hb⟩ := h.hasBook
    exact ⟨book.remove id, by simp [Database.remove, hb]⟩
  numbered := by
    intro book' hb' rule hrule
    obtain ⟨book, hb, rfl⟩ := Option.map_eq_some_iff.mp hb'
    exact h.numbered book hb rule ((List.mem_filter.mp hrule).1)

/-- No stored rule has the id of the next number if ids are never repeated. -/
theorem IsReady.id_ne_next (h : d.IsReady) (hfresh : d.HasFreshIds) {book : Book}
    (hb : d.book = some book) {rule : StoredRule} (hrule : rule ∈ book.rules) :
    rule.id ≠ d.source.idAt d.nextNumber := by
  obtain ⟨n, hn, hnumbered⟩ := h.numbered book hb rule hrule
  rw [hnumbered.id]
  exact fun he => absurd (hfresh n hn.le d.nextNumber le_rfl he) (Nat.ne_of_lt hn)

end

end Database

end Rulebook
