import LittleScheme.Proofs.Store.Copying

/-!
# Evaluation and ownership

Evaluation hands around references to data that are bound elsewhere, puts them into new pairs, and
drops them again.  It stores nothing but fresh copies, new procedures, and pairs into themselves; so
every stored value keeps one owner whatever is evaluated.  As a discipline, `ownership` asks that
some ranking and some map of owners are right for the store.
-/

namespace LittleScheme

/-- Some ranking and some map of owners are right.  Values are no frames, and a scope is a frame
that nothing has captured. -/
def ownership : Discipline where
  Sound s := ∃ o : Ownership, o.Fits s
  Value s r := ∀ q, r = .cell q → q < s.size ∧ s.frame? q = none
  Scope s env := (∃ frame, s.frame? env = some frame) ∧
    ∀ l node, s.node? (.cell l) = some node → node.captured ≠ some env
  Captured _ _ := True

/-! ## What keeps to the discipline -/

namespace ownership

variable {o o' : Ownership} {s s' : Store}

/-- Cells stay frames or stay no frames, and what is captured was captured before or is new. -/
theorem keeps (fits : o'.Fits s') (size : s.size ≤ s'.size)
    (frames : ∀ q, q < s.size → (s'.frame? q).isSome = (s.frame? q).isSome)
    (captured : ∀ l node env, s'.node? (.cell l) = some node → node.captured = some env →
      s.size ≤ env ∨ ∃ l' node', s.node? (.cell l') = some node' ∧ node'.captured = some env) :
    ownership.Keeps s s' := by
  refine ⟨⟨o', fits⟩, ?_, ?_, fun _ => trivial⟩
  · intro r value q eq
    obtain ⟨exist, plain⟩ := value q eq
    have same := frames q exist
    rw [plain] at same
    exact ⟨Nat.lt_of_lt_of_le exist size, by simpa using same⟩
  · rintro env ⟨⟨frame, here⟩, free⟩
    have exist := Store.lt_size_of_frame? here
    have same := frames env exist
    rw [here] at same
    refine ⟨Option.isSome_iff_exists.1 same, ?_⟩
    intro l node found captures
    rcases captured l node env found captures with new | ⟨l', node', found', captures'⟩
    · exact absurd exist (Nat.not_lt.2 new)
    · exact free l' node' found' captures'

theorem keeps_of_copies (copies : o.Copies s o' s') : ownership.Keeps s s' := by
  refine keeps copies.fits copies.size (fun q old => by rw [copies.frame? old]) ?_
  intro l node env found captures
  by_cases old : l < s.size
  · exact .inr ⟨l, node, copies.node? old ▸ found, captures⟩
  · exact .inl (copies.captured (Nat.not_lt.1 old) found captures)

theorem keeps_register {node : Node} (fits : o'.Fits (s.register node))
    (captured : ∀ env, node.captured = some env → s.size ≤ env) :
    ownership.Keeps s (s.register node) := by
  refine keeps fits (by simp) ?_ ?_
  · intro q old
    rw [Store.frame?_eq, Store.frame?_eq, Store.node?_register,
      if_neg (by simpa using Nat.ne_of_lt old)]
  · intro l node' env found captures
    rw [Store.node?_register] at found
    split at found
    · obtain rfl := Option.some.inj found
      exact .inl (captured env captures)
    · exact .inr ⟨l, node', found, captures⟩

/-- Contents are exchanged for others of the same kind. -/
theorem keeps_write {p : Loc} {old node : Node} (found : s.node? (.cell p) = some old)
    (fits : o'.Fits (s.write p node)) (kind : node.frame?.isSome = old.frame?.isSome)
    (free : node.captured = none) : ownership.Keeps s (s.write p node) := by
  have exist := Store.lt_size found
  refine keeps fits (by simp) ?_ ?_
  · intro q _
    rw [Store.frame?_eq, Store.frame?_eq, Store.node?_write s exist]
    split
    · rename_i here
      rw [here, found]
      exact kind
    · rfl
  · intro l node' env found' captures
    rw [Store.node?_write s exist] at found'
    split at found'
    · obtain rfl := Option.some.inj found'
      simp [free] at captures
    · exact .inr ⟨l, node', found', captures⟩

/-! ## New values -/

/-- Some rank lies above those of finitely many references. -/
theorem exists_rank (rank : Loc → Nat) (rs : List Ref) :
    ∃ k, ∀ q, .cell q ∈ rs → rank q < k := by
  induction rs with
  | nil => exact ⟨0, by simp⟩
  | cons r rs ih =>
    obtain ⟨k, above⟩ := ih
    cases r with
    | nil => exact ⟨k, fun q member => above q (by simpa using member)⟩
    | cell p =>
      refine ⟨max k (rank p + 1), fun q member => ?_⟩
      rcases List.mem_cons.1 member with here | later
      · obtain rfl : q = p := by simpa using here
        omega
      · have := above q later
        omega

/-- The reference can be stored. -/
def Storable (r : Ref) (s : Store) : Prop := ∃ o : Ownership, o.Fits s ∧ s.Free o.owner r

theorem Storable.value {r : Ref} (storable : Storable r s) : ownership.Value s r := by
  obtain ⟨o, -, free⟩ := storable
  exact fun q eq => ⟨(free q eq).1, (free q eq).2.1⟩

/-- A new cell other than a pair or a frame can be stored. -/
theorem storable_register {node : Node} (fits : o.Fits s) (registered : o'.Fits (s.register node))
    (same : o'.owner = o.owner) (plain : node.frame? = none) (atom : node.fields? = none) :
    Storable (.cell s.size) (s.register node) := by
  have here : (s.register node).node? (.cell s.size) = some node := by
    rw [Store.node?_register, if_pos rfl]
  refine ⟨o', registered, ?_⟩
  rintro _ ⟨⟩
  refine ⟨by simp, ?_, ?_, ?_⟩
  · rw [Store.frame?_eq, here]
    exact plain
  · rw [same]
    exact fits.owned.vacant (Nat.le_refl _)
  · intro fields found
    rw [Store.pair?_eq, here] at found
    simp [atom] at found

/-- A new value is made of values; if it is no pair, it can be stored. -/
theorem make (fits : o.Fits s) {node : Node} (data : ownership.Results node.data s)
    (free : node.captured = none) (plain : node.frame? = none) :
    ownership.Runs (LittleScheme.make node) s fun r s =>
      ownership.Value s r ∧ (node.fields? = none → Storable r s) := by
  obtain ⟨k, above⟩ := exists_rank o.rank node.data
  have registered : Ownership.Fits { o with rank := Function.update o.rank s.size k }
      (s.register node) := by
    constructor
    · refine fits.ranked.register (fun q member => ?_) (by simp [free])
      obtain ⟨exist, none⟩ := data _ member q rfl
      exact ⟨exist, none, above q member⟩
    · refine fits.owned.register ?_
      rintro frame rfl
      simp [Node.frame?] at plain
  refine .of_ok rfl (keeps_register registered (by simp [free])) ⟨?_, ?_⟩
  · rintro _ ⟨⟩
    refine ⟨by simp, ?_⟩
    rw [Store.frame?_eq, Store.node?_register, if_pos rfl]
    exact plain
  · exact storable_register fits registered rfl plain

/-- A new frame without bindings. -/
theorem fits_registerFrame (fits : o.Fits s) (outer : Option Loc) :
    Ownership.Fits { o with rank := Function.update o.rank s.size 0 }
      (s.register (.environment { outer })) :=
  ⟨fits.ranked.register (by simp [Node.data]) (by simp [Node.captured]),
    fits.owned.register (by rintro _ ⟨⟩; rfl)⟩

/-- A new procedure captures a new frame; it can be stored. -/
theorem makeClosure (fits : o.Fits s) {params body : List Ref}
    (code : ownership.Results (params ++ body) s) (env : Loc) :
    ownership.Runs (LittleScheme.makeClosure params body (some env)) s Storable := by
  refine .get ?_
  split
  · obtain ⟨k, above⟩ := exists_rank o.rank (params ++ body)
    let s₁ := s.register (.environment { outer := some env })
    have fits₁ := fits_registerFrame fits (some env)
    have kept₁ : ownership.Keeps s s₁ := keeps_register fits₁ (by simp [Node.captured])
    have registered : Ownership.Fits { o with
        rank := Function.update (Function.update o.rank s.size 0) s₁.size (k + 1) }
        (s₁.register (.closure params body (some s.size))) := by
      constructor
      · refine fits₁.ranked.register ?_ ?_
        · intro q member
          obtain ⟨exist, none⟩ := code _ member q rfl
          obtain ⟨exist', none'⟩ := kept₁.values code _ member q rfl
          have same : Function.update o.rank s.size 0 q = o.rank q :=
            Function.update_of_ne (Nat.ne_of_lt exist) _ _
          have low : o.rank q < k + 1 := Nat.lt_succ_of_lt (above q member)
          exact ⟨exist', none', Nat.lt_of_le_of_lt (Nat.le_of_eq same) low⟩
        · rintro _ ⟨⟩
          refine ⟨⟨some env, ?_⟩, by simp⟩
          rw [Store.frame?_eq_some, Store.node?_register, if_pos rfl]
      · exact fits₁.owned.register (by simp)
    refine .of_ok rfl (keeps registered ?_ ?_ ?_) (storable_register fits₁ registered rfl rfl rfl)
    · simp only [Store.size_register]
      omega
    · intro q old
      have old₁ : q < s.size + 1 := Nat.lt_succ_of_lt old
      rw [Store.frame?_eq, Store.node?_register, if_neg (by simpa using Nat.ne_of_lt old₁),
        Store.node?_register, if_neg (by simpa using Nat.ne_of_lt old), ← Store.frame?_eq]
    · intro l node env' found captures
      rw [Store.node?_register, Store.node?_register] at found
      split at found
      · obtain rfl := Option.some.inj found
        obtain rfl : s.size = env' := by simpa [Node.captured] using captures
        exact .inl (Nat.le_refl _)
      · split at found
        · obtain rfl := Option.some.inj found
          simp [Node.captured] at captures
        · exact .inr ⟨l, node, found, captures⟩
  · exact .fail ⟨o, fits⟩

/-- Adding copies keeps to the discipline. -/
theorem runs_of_adds {α : Type} {action : StoreM α} {post : α → Ownership → Store → Prop}
    {post' : α → Store → Prop} (adds : o.Adds s action s post)
    (imp : ∀ a o' s', o.Copies s o' s' → post a o' s' → post' a s') :
    ownership.Runs action s post' := by
  constructor
  · intro a s' ended
    obtain ⟨o', copies, asked⟩ := adds.ok ended
    exact ⟨keeps_of_copies copies, imp a o' s' copies asked⟩
  · intro fault s' ended
    obtain ⟨o', copies⟩ := adds.error ended
    exact keeps_of_copies copies

/-- A copy of a value can be stored. -/
theorem duplicate (depth : Nat) (fits : o.Fits s) {r : Ref} (value : ownership.Value s r) :
    ownership.Runs (LittleScheme.duplicate depth r) s Storable :=
  runs_of_adds (o.duplicate depth fits value) fun _ _ _ copies ⟨_, copy⟩ =>
    ⟨_, copies.fits, copy.free⟩

/-! ## Bindings -/

/-- A binding becomes the owner of what it is bound to. -/
theorem fits_define (fits : o.Fits s) {r : Ref} (free : s.Free o.owner r) {env : Loc}
    (scope : ∀ l node, s.node? (.cell l) = some node → node.captured ≠ some env) (name : String) :
    Ownership.Fits { o with owner := Store.give o.owner (.slot env name) r }
      (s.define env name r) := by
  refine ⟨fits.ranked.define scope name r, (fits.owned.give free _).define ?_⟩
  rintro q rfl
  exact ⟨(free q rfl).1, (free q rfl).2.1, Function.update_self _ _ _⟩

theorem keeps_define (fits : o.Fits s) {r : Ref} (free : s.Free o.owner r) {env : Loc}
    (scope : ∀ l node, s.node? (.cell l) = some node → node.captured ≠ some env) (name : String) :
    ownership.Keeps s (s.define env name r) := by
  have defined := fits_define fits free scope name
  rw [Store.define] at defined ⊢
  split at defined
  · rename_i frame here
    exact keeps_write (Store.frame?_eq_some.1 here) defined rfl rfl
  · exact .refl ⟨o, fits⟩

theorem define {r : Ref} (storable : Storable r s) {env : Loc} (scope : ownership.Scope s env)
    (name : String) : ownership.Runs (LittleScheme.define env name r) s fun _ _ => True := by
  obtain ⟨o, fits, free⟩ := storable
  exact .of_ok rfl (keeps_define fits free scope.2 name) trivial

/-- What a name is bound to is a value. -/
theorem lookup (fits : o.Fits s) {env : Loc} {name : String} {r : Ref}
    (h : s.lookup? env name = some r) : ownership.Value s r := by
  rw [Store.lookup?] at h
  obtain ⟨loc, -, bound⟩ := Option.bind_eq_some_iff.1 h
  rintro q rfl
  obtain ⟨exist, plain, -⟩ := fits.owned.slots bound
  exact ⟨exist, plain⟩

/-- A frame with a binding is not captured. -/
theorem not_captured_of_binds (fits : o.Fits s) {env : Loc} {name : String}
    (binds : s.bindsAt name env = true) (l : Loc) (node : Node)
    (found : s.node? (.cell l) = some node) : node.captured ≠ some env := by
  intro captures
  obtain ⟨⟨outer, frame⟩, -⟩ := fits.ranked.captured found captures
  simp [Store.bindsAt, frame, Frame.binds, Frame.get?] at binds

theorem assign {r : Ref} (storable : Storable r s) (env : Loc) (name : String) :
    ownership.Runs (LittleScheme.assign env name r) s ownership.Result := by
  obtain ⟨o, fits, free⟩ := storable
  cases bound : s.lookup? env name with
  | none => exact .of_error (assign_of_unbound bound r) (.refl ⟨o, fits⟩)
  | some previous =>
    have kept : ownership.Keeps s (s.assign env name r) := by
      rw [Store.assign]
      split
      · rename_i loc decides
        have binds := List.find?_some decides
        exact keeps_define fits free (not_captured_of_binds fits binds) name
      · exact .refl ⟨o, fits⟩
    exact .of_ok (assign_of_bound bound r) kept (kept.value (lookup fits bound))

/-! ## Fields -/

/-- A field holds something else, of which the pair is the owner, or the pair itself. -/
theorem fits_setField (fits : o.Fits s) {p : Loc} {fields : Ref × Ref}
    (found : s.pair? (.cell p) = some fields) (field : Field) {r : Ref}
    (below : ∀ q, r = .cell q → q < s.size ∧ s.frame? q = none ∧ (q = p ∨ o.rank q < o.rank p))
    (owner : ∀ q, r = .cell q → q ≠ p → o.owner q = some (.field p field)) :
    o.Fits (s.write p (field.set r fields)) := by
  have pair := Store.pair?_eq_some.1 found
  rw [Field.set_eq]
  constructor
  · refine fits.ranked.write pair rfl rfl ?_ (by simp [Node.captured])
    intro q member
    obtain ⟨field', held⟩ := Node.exists_field member
    rw [Field.get_put] at held
    split at held
    · exact below q held
    · exact fits.ranked.data pair (Node.mem_data held)
  · refine fits.owned.write pair rfl rfl ?_
    intro has fields' eq field' q held other
    obtain rfl : field.put fields r = fields' := by simpa [Node.fields?] using eq
    rw [Field.get_put] at held
    split at held
    · rename_i same
      rw [same]
      exact owner q held other
    · exact fits.owned.fields has fields found field' q held other

theorem keeps_setField {p : Loc} {fields : Ref × Ref} (found : s.pair? (.cell p) = some fields)
    (field : Field) {r : Ref} (fits : o.Fits (s.write p (field.set r fields))) :
    ownership.Keeps s (s.write p (field.set r fields)) := by
  refine keeps_write (Store.pair?_eq_some.1 found) fits ?_ ?_ <;> rw [Field.set_eq] <;> rfl

/-- A pair can be stored in itself. -/
theorem tie (fits : o.Fits s) {p : Loc} {fields : Ref × Ref}
    (found : s.pair? (.cell p) = some fields) (field : Field) :
    ownership.Runs (overwrite p (field.set (.cell p) fields)) s fun _ _ => True := by
  have pair := Store.pair?_eq_some.1 found
  have plain : s.frame? p = none := by rw [Store.frame?_eq, pair]; rfl
  refine .of_ok rfl (keeps_setField found field (fits_setField fits found field ?_ ?_)) trivial
  · rintro _ ⟨⟩
    exact ⟨Store.lt_size pair, plain, .inl rfl⟩
  · rintro _ ⟨⟩ other
    exact absurd rfl other

/-- Copies can be ranked below everything else. -/
theorem exists_lifted (fits : o.Fits s) (copies : o.Copies s o' s') :
    ∃ rank, s'.Ranked rank ∧ ∀ l q, l < s.size → s.size ≤ q → q < s'.size → rank q < rank l := by
  obtain ⟨bound, above⟩ := exists_rank o'.rank ((List.range s'.size).map Ref.cell)
  have bounded (q : Loc) (exist : q < s'.size) : o'.rank q < bound :=
    above q (List.mem_map.2 ⟨q, List.mem_range.2 exist, rfl⟩)
  let rank (l : Loc) : Nat := if l < s.size then o'.rank l + bound else o'.rank l
  have old {l : Loc} (h : l < s.size) : rank l = o'.rank l + bound := if_pos h
  have new {l : Loc} (h : s.size ≤ l) : rank l = o'.rank l := if_neg (Nat.not_lt.2 h)
  refine ⟨rank, ⟨?_, ?_⟩, ?_⟩
  · intro l node q found member
    obtain ⟨exist, plain, order⟩ := copies.fits.ranked.data found member
    refine ⟨exist, plain, order.imp_right fun less => ?_⟩
    by_cases isOld : l < s.size
    · have isOld' : q < s.size := (fits.ranked.data (copies.node? isOld ▸ found) member).1
      rw [old isOld, old isOld']
      omega
    · rw [new (Nat.not_lt.1 isOld), new (copies.data (Nat.not_lt.1 isOld) found member)]
      exact less
  · intro l node env found captures
    obtain ⟨frame, less⟩ := copies.fits.ranked.captured found captures
    refine ⟨frame, ?_⟩
    by_cases isOld : l < s.size
    · obtain ⟨⟨outer, frame'⟩, -⟩ := fits.ranked.captured (copies.node? isOld ▸ found) captures
      rw [old isOld, old (Store.lt_size_of_frame? frame')]
      omega
    · rw [new (Nat.not_lt.1 isOld), new (copies.captured (Nat.not_lt.1 isOld) found captures)]
      exact less
  · intro l q isOld isNew exist
    rw [old isOld, new isNew]
    have := bounded q exist
    omega

/-- A copy can be stored in a field. -/
theorem replace (depth : Nat) (fits : o.Fits s) {p : Loc} {fields : Ref × Ref}
    (found : s.pair? (.cell p) = some fields) {r : Ref} (value : ownership.Value s r)
    (field : Field) :
    ownership.Runs (LittleScheme.duplicate depth r >>= fun value =>
      overwrite p (field.set value fields)) s fun _ _ => True := by
  have exist := Store.lt_size (Store.pair?_eq_some.1 found)
  refine (runs_of_adds (o.duplicate depth fits value) fun r' o' s' copies copy =>
    (⟨o', copies, copy⟩ :
      ∃ o', o.Copies s o' s' ∧ ∃ k, Ownership.IsCopy s.size k none r' o' s')).bind
    ?_
  rintro r' s' - ⟨o', copies, k, copy⟩
  have found' : s'.pair? (.cell p) = some fields := by
    rw [Store.pair?_eq, copies.node? exist, ← Store.pair?_eq, found]
  obtain ⟨rank, ranked, lifted⟩ := exists_lifted fits copies
  have held : (o'.hold p field r').Fits s' := copies.fits.hold (.inr copy.free) field
  have fits' : Ownership.Fits ⟨rank, (o'.hold p field r').owner⟩ s' := ⟨ranked, held.owned⟩
  refine .of_ok rfl (keeps_setField found' field (fits_setField fits' found' field ?_ ?_)) trivial
  · intro q eq
    have fresh := copy q eq
    exact ⟨fresh.exist, fresh.frame, .inr (lifted p q exist fresh.new fresh.exist)⟩
  · intro q eq other
    exact Ownership.owner_hold eq other

/-! ## Frames of calls -/

/-- The references lead to different cells. -/
def Apart (rs : List Ref) : Prop := rs.Pairwise fun r r' => ∀ q, r = .cell q → r' ≠ .cell q

/-- Copies that are taken one after the other are different. -/
theorem copyEach (depth : Nat) (fits : o.Fits s) {rs : List Ref}
    (values : ownership.Results rs s) :
    o.Adds s (LittleScheme.copyEach (LittleScheme.duplicate depth) rs) s fun rs' o' s' =>
      Apart rs' ∧ ∀ r ∈ rs', ∃ k, Ownership.IsCopy s.size k none r o' s' := by
  induction rs generalizing o s with
  | nil => exact .of_ok rfl (.refl fits) ⟨.nil, by simp⟩
  | cons r rs ih =>
    refine .bind (o.duplicate depth fits (values r (by simp))) ?_
    rintro r' o₁ s₁ copies₁ ⟨k, copy⟩
    have rest := ih copies₁.fits fun r member =>
      (keeps_of_copies copies₁).value (values r (by simp [member]))
    refine .bind (.rebase copies₁ rest fun _ _ _ copies asked => And.intro copies asked) ?_
    rintro rs' o₂ s₂ copies ⟨copies₂, apart, copied⟩
    refine .of_ok rfl copies ⟨List.pairwise_cons.2 ⟨?_, apart⟩, ?_⟩
    · intro r'' member q eq eq'
      obtain ⟨k', copy'⟩ := copied r'' member
      exact absurd (copy q eq).exist (Nat.not_lt.2 (copy' q eq').new)
    · intro r'' member
      rcases List.mem_cons.1 member with rfl | later
      · exact ⟨k, copy.mono copies₁.fits copies₂⟩
      · obtain ⟨k', copy'⟩ := copied r'' later
        exact ⟨k', fun q eq => (copy' q eq).weaken copies₁.size (Nat.le_refl _)⟩

/-- A value without an owner has none once another one has been bound. -/
theorem free_define {r r' : Ref} (free : s.Free o.owner r) (free' : s.Free o.owner r')
    (apart : ∀ q, r = .cell q → r' ≠ .cell q) {env : Loc} {frame : Frame}
    (here : s.frame? env = some frame) (name : String) :
    (s.define env name r).Free (Store.give o.owner (.slot env name) r) r' := by
  have defined : s.define env name r = s.write env (.environment (frame.define name r)) := by
    simp [Store.define, here]
  intro q eq
  obtain ⟨exist, plain, vacant, keeps⟩ := free' q eq
  have other : q ≠ env := by
    rintro rfl
    simp [plain] at here
  have same : (s.define env name r).node? (.cell q) = s.node? (.cell q) := by
    rw [defined, Store.node?_write_of_ne s _ (by simpa using other)]
  refine ⟨?_, ?_, ?_, (keeps.give free _).congr same⟩
  · rw [defined, Store.size_write]
    exact exist
  · rw [Store.frame?_eq, same, ← Store.frame?_eq, plain]
  · rw [Store.give_of_ne fun eq' => apart q eq' eq, vacant]

/-- Different values without an owner are bound one after the other. -/
theorem exists_fits_defineAll (fits : o.Fits s) {env : Loc} {frame : Frame}
    (here : s.frame? env = some frame)
    (scope : ∀ l node, s.node? (.cell l) = some node → node.captured ≠ some env)
    {bindings : List (String × Ref)} (apart : Apart (bindings.map (·.2)))
    (free : ∀ binding ∈ bindings, s.Free o.owner binding.2) :
    ∃ o' : Ownership, o'.Fits (s.write env (.environment (frame.defineAll bindings))) := by
  induction bindings generalizing o s frame with
  | nil => exact ⟨o, ((Ownership.Copies.refl fits).rewrite (Store.frame?_eq_some.1 here)).fits⟩
  | cons binding rest ih =>
    obtain ⟨name, r⟩ := binding
    have first := free (name, r) (by simp)
    have kept := keeps_define fits first scope name
    have apart := List.pairwise_cons.1 apart
    have scope' := (kept.scope ⟨⟨frame, here⟩, scope⟩).2
    have free' (binding : String × Ref) (member : binding ∈ rest) :
        (s.define env name r).Free (Store.give o.owner (.slot env name) r) binding.2 :=
      free_define first (free binding (by simp [member]))
        (apart.1 binding.2 (List.mem_map_of_mem member)) here name
    have defined : s.define env name r = s.write env (.environment (frame.define name r)) := by
      simp [Store.define, here]
    have exist : env < s.size := Store.lt_size_of_frame? here
    have here' : (s.define env name r).frame? env = some (frame.define name r) := by
      rw [defined, Store.frame?_eq, Store.node?_write s exist, if_pos rfl]
      rfl
    obtain ⟨o', fits'⟩ := ih (fits_define fits first scope name) here' scope' apart.2 free'
    rw [defined, Store.write_write] at fits'
    exact ⟨o', fits'⟩

/-- Nothing has captured a new frame. -/
theorem scope_register (fits : o.Fits s) (frame : Frame) :
    ownership.Scope (s.register (.environment frame)) s.size := by
  refine ⟨⟨frame, ?_⟩, ?_⟩
  · rw [Store.frame?_eq_some, Store.node?_register, if_pos rfl]
  · intro l node found captures
    rw [Store.node?_register] at found
    split at found
    · obtain rfl := Option.some.inj found
      simp [Node.captured] at captures
    · obtain ⟨⟨outer, here⟩, -⟩ := fits.ranked.captured found captures
      exact absurd (Store.lt_size_of_frame? here) (Nat.lt_irrefl _)

theorem free_register {r : Ref} (free : s.Free o.owner r) (node : Node) :
    (s.register node).Free o.owner r := by
  intro q eq
  obtain ⟨exist, plain, vacant, keeps⟩ := free q eq
  have same : (s.register node).node? (.cell q) = s.node? (.cell q) := by
    rw [Store.node?_register, if_neg (by simpa using Nat.ne_of_lt exist)]
  refine ⟨?_, ?_, vacant, keeps.congr same⟩
  · rw [Store.size_register]
    exact Nat.lt_succ_of_lt exist
  · rw [Store.frame?_eq, same, ← Store.frame?_eq, plain]

/-- The frame of a call owns the copies of the operands, and nothing has captured it. -/
theorem enterCall {engine : Engine} {depth : Nat}
    (copy : engine.copy = LittleScheme.duplicate depth) (fits : o.Fits s) (captured : Option Loc)
    (params : List Ref) {values : List Ref} (results : ownership.Results values s) :
    ownership.Runs (engine.enterCall params values captured) s fun inner s =>
      ownership.Scope s inner := by
  rw [Engine.enterCall]
  rw [copy]
  refine (runs_of_adds (copyEach depth fits results) fun rs o' s' copies asked =>
    (⟨o', copies.fits, asked.1, fun r member => (asked.2 r member).elim fun _ copy => copy.free⟩ :
      ∃ o' : Ownership, o'.Fits s' ∧ Apart rs ∧ ∀ r ∈ rs, s'.Free o'.owner r)).bind ?_
  rintro rs s₁ - ⟨o₁, fits₁, apart, free⟩
  have fits₂ := fits_registerFrame fits₁ captured
  refine .get ?_
  split
  · have allocated : ownership.Runs (allocate (.environment { outer := captured })) s₁
        fun _ _ => True :=
      .of_ok rfl (keeps_register fits₂ (by simp [Node.captured])) trivial
    refine allocated.discard.bind ?_
    intro _ s₂ kept _
    exact .throw kept.sound
  · obtain ⟨⟨frame, here⟩, scope⟩ := scope_register fits₁ { outer := captured }
    obtain rfl : { outer := captured } = frame := by
      rw [Store.frame?_eq, Store.node?_register, if_pos rfl] at here
      exact Option.some.inj here
    have sublist := parameterBindings_sublist s₁ params rs
    obtain ⟨o₃, fits₃⟩ := exists_fits_defineAll fits₂ here scope (apart.sublist sublist)
      fun binding member => free_register
        (free binding.2 (sublist.subset (List.mem_map_of_mem member))) _
    rw [Store.write_register] at fits₃
    exact .of_ok rfl (keeps_register fits₃ (by simp [Node.captured])) (scope_register fits₁ _)

end ownership

/-- Evaluation keeps stored values to one owner each. -/
theorem lawful_ownership : ownership.Lawful where
  nil := by simp [ownership]
  lookup sound _ h := by
    obtain ⟨o, fits⟩ := sound
    exact ownership.lookup fits h
  fields {s r fields} sound _ found := by
    obtain ⟨o, fits⟩ := sound
    cases r with
    | nil => simp [Store.pair?, Store.node?] at found
    | cell p =>
      have value (field : Field) : ownership.Value s (field.get fields) := by
        intro q held
        obtain ⟨exist, plain, -⟩ := fits.ranked.data (Store.pair?_eq_some.1 found)
          (Node.mem_data held)
        exact ⟨exist, plain⟩
      exact ⟨value .first, value .second⟩
  code {s r params body captured} sound _ found := by
    obtain ⟨o, fits⟩ := sound
    cases r with
    | nil => simp [Store.node?] at found
    | cell p =>
      have value (r : Ref) (member : r ∈ params ++ body) : ownership.Value s r := by
        rintro q rfl
        obtain ⟨exist, plain, -⟩ := fits.ranked.data found member
        exact ⟨exist, plain⟩
      exact ⟨fun r member => value r (by simp [member]), fun r member => value r (by simp [member]),
        fun _ _ => trivial⟩
  atom a sound := by
    obtain ⟨o, fits⟩ := sound
    have blank : a.node.data = [] := by cases a <;> rfl
    refine (ownership.make fits (by simp [blank, Discipline.Results]) ?_ ?_).imp
      fun _ _ made => made.1
    · cases a <;> rfl
    · cases a <;> rfl
  pair {s a b} sound first second := by
    obtain ⟨o, fits⟩ := sound
    have data : ownership.Results (Node.pair a b).data s := by
      intro r member
      simp only [Node.data, List.mem_cons, List.not_mem_nil, or_false] at member
      rcases member with rfl | rfl
      · exact first
      · exact second
    exact (ownership.make fits data rfl rfl).imp fun _ _ made => made.1
  procedure sound params body _ := by
    obtain ⟨o, fits⟩ := sound
    exact (ownership.makeClosure fits (fun r member => (List.mem_append.1 member).elim (params r)
      (body r)) _).imp fun _ _ storable => storable.value
  copy depth sound value := by
    obtain ⟨o, fits⟩ := sound
    exact (ownership.duplicate depth fits value).imp fun _ _ storable => storable.value
  define depth name sound value scope := by
    obtain ⟨o, fits⟩ := sound
    exact (ownership.duplicate depth fits value).bind fun _ _ kept storable =>
      ownership.define storable (kept.scope scope) name
  defineProcedure name sound params body scope := by
    obtain ⟨o, fits⟩ := sound
    exact (ownership.makeClosure fits (fun r member => (List.mem_append.1 member).elim (params r)
      (body r)) _).bind fun _ _ kept storable =>
        ownership.define storable (kept.scope scope) name
  operator op name sound scope := by
    obtain ⟨o, fits⟩ := sound
    refine (ownership.make fits (by simp [Node.data, Discipline.Results]) rfl rfl).bind ?_
    intro _ _ kept made
    exact ownership.define (made.2 rfl) (kept.scope scope) name
  assign depth name sound value _ := by
    obtain ⟨o, fits⟩ := sound
    exact (ownership.duplicate depth fits value).bind fun _ _ _ storable =>
      ownership.assign storable _ name
  replace depth field sound _ found value _ := by
    obtain ⟨o, fits⟩ := sound
    exact ownership.replace depth fits found value field
  tie field sound _ found := by
    obtain ⟨o, fits⟩ := sound
    exact ownership.tie fits found field
  enter depth copy sound _ results := by
    obtain ⟨o, fits⟩ := sound
    exact ownership.enterCall copy fits _ _ results

end LittleScheme
