import ClassLang.Proofs.Grammar.Extent
import ClassLang.Proofs.Grammar.Plain.Expression
import ClassLang.Proofs.Tree.Admitted

/-!
Whatever the tokens of a source text spell is admitted: the trees of expressions, statements and
classes keep the promises that the grammar makes about them.
-/

namespace ClassLang.Grammar

variable {known : String → Bool} {ts rest : List Token}

theorem SpellsFields.isName {names : List String} (h : SpellsFields ts names rest)
    (hl : Lexed ts) : ∀ name ∈ names, IsName name := by
  induction h with
  | nil =>
    intro name hname
    cases hname
  | cons ht hu _ ih =>
    exact List.forall_mem_cons.2 ⟨hl.tail.head_of_eq hu rfl, ih hl.tail.tail⟩

theorem admitted_name {t : Token} {root : String} {fields : List String} {pos : Pos}
    (ht : t.kind = .word root) (hl : Lexed (t :: ts)) (hf : ∀ name ∈ fields, IsName name) :
    (Expr.name (root :: fields) pos).Admitted known :=
  ⟨List.cons_ne_nil root fields, List.forall_mem_cons.2 ⟨hl.head_of_eq ht rfl, hf⟩⟩

theorem admitted_literal {t : Token} {value : Literal} {pos : Pos}
    (h : literal? t.kind = some value) (hl : Lexed (t :: ts)) :
    (Expr.literal value pos).Admitted known := by
  rintro n rfl
  have hk : t.kind = .number n := by
    unfold literal? at h
    split at h <;> cases h
    assumption
  exact hl.head_of_eq hk rfl

theorem admitted_of_operator? {l : Level} {k : Kind} {build : Expr → Expr → Pos → Expr}
    {left right : Expr} {pos : Pos} (h : l.operator? k = some build)
    (hleft : left.Admitted known) (hright : right.Admitted known) :
    (build left right pos).Admitted known := by
  unfold Level.operator? at h
  split at h <;> cases h <;> exact ⟨hleft, hright⟩

mutual

theorem Spells.admitted {l : Level} {ts rest : List Token} {e : Expr} :
    Spells known l ts e rest → Lexed ts → e.Admitted known
  | .literal h, hl => admitted_literal h hl
  | .paren _ he _, hl => he.admitted hl.tail
  | .conversion _ _ ha, hl => (ha.admitted hl.tail.tail).1
  | .construction ht hstr hknown _ ha, hl =>
    ⟨hl.head_of_eq ht rfl, hstr, hknown, ha.admitted hl.tail.tail⟩
  | .dottedCall ht hf hu ha, hl => by
    have hnames := hf.isName hl.tail
    have hfields := fun name hname => hnames name (List.mem_append_left _ hname)
    have hmethod := hnames _ (List.mem_append_right _ (List.mem_singleton.2 rfl))
    exact ⟨admitted_name ht hl hfields, hmethod, ha.admitted (hl.tail.covers hf.covers).tail⟩
  | .methodCall he _ hu _ ha, hl => by
    have hmid := hl.covers he.covers
    exact ⟨he.admitted hl, hmid.tail.head_of_eq hu rfl, ha.admitted hmid.tail.tail.tail⟩
  | .name ht hf, hl => admitted_name ht hl (hf.isName hl.tail)
  | .minus _ he, hl =>
    ⟨fun n hn => (by cases hn; decide), he.admitted hl.tail⟩
  | .compare hleft _ hright, hl =>
    ⟨hleft.admitted hl, hright.admitted (hl.covers hleft.covers).tail⟩
  | .negation _ he, hl => (he.admitted hl.tail :)
  | .row hleft hop hright hbuild, hl =>
    hbuild ▸ admitted_of_operator? hop (hleft.admitted hl)
      (hright.admitted (hl.covers hleft.covers).tail)
  | .operand _ he, hl => he.admitted hl

theorem SpellsArgs.admitted {ts rest : List Token} {es : List Expr} :
    SpellsArgs known ts es rest → Lexed ts → Expr.AdmittedAll known es
  | .nil _, _ => trivial
  | .list hs _, hl => hs.admitted hl

theorem SpellsList.admitted {ts rest : List Token} {es : List Expr} :
    SpellsList known ts es rest → Lexed ts → Expr.AdmittedAll known es
  | .one he, hl => ⟨he.admitted hl, trivial⟩
  | .cons he _ hs, hl => ⟨he.admitted hl, hs.admitted (hl.covers he.covers).tail⟩

end

theorem admitted_assignment {path : List String} {pos pos' : Pos} {value : Expr}
    {inMethod : Bool} (hpath : (Expr.name path pos).Admitted known) (hv : value.Admitted known) :
    (assignment path value pos').Admitted known inMethod := by
  obtain ⟨hne, hnames⟩ := hpath
  obtain ⟨front, name, rfl⟩ := (List.eq_nil_or_concat path).resolve_left hne
  rw [List.concat_eq_append] at hnames ⊢
  have hname := hnames name (List.mem_append_right _ (List.mem_singleton.2 rfl))
  rw [assignment, List.getLast?_concat, List.dropLast_concat]
  cases front with
  | nil => exact ⟨hname, hv⟩
  | cons root fields =>
    have hobject := fun name hname => hnames name (List.mem_append_left _ hname)
    exact ⟨⟨_, _, rfl⟩, ⟨List.cons_ne_nil root fields, hobject⟩, hname, hv⟩

theorem SpellsSimple.admitted {inMethod : Bool} {st : Stmt}
    (h : SpellsSimple known inMethod ts st rest) (hl : Lexed ts) : st.Admitted known inMethod := by
  cases h with
  | giveNone hin _ => exact ⟨hin, fun n hn => (by cases hn)⟩
  | give hin _ he => exact ⟨hin, he.admitted hl.tail⟩
  | printNone _ => trivial
  | print _ hs => exact hs.admitted hl.tail
  | assign hp _ he =>
    exact admitted_assignment (hp.admitted hl) (he.admitted (hl.covers hp.covers).tail)
  | expr he => exact Spells.admitted he hl

/-- A block that is opened is not empty. -/
theorem SpellsBlock.ne_nil {inMethod : Bool} {t : Token} {body : List Stmt}
    (h : SpellsBlock known inMethod ts body rest) (hl : Lexed (t :: ts)) (ht : t.kind = .indent) :
    body ≠ [] := by
  cases h with
  | nil hu => exact absurd hu (hl.spaced.ne_dedent ht)
  | cons _ _ => exact List.cons_ne_nil _ _

mutual

theorem SpellsStmt.admitted {inMethod : Bool} {ts rest : List Token} {st : Stmt} :
    SpellsStmt known inMethod ts st rest → Lexed ts → st.Admitted known inMethod
  | .simple hs _, hl => hs.admitted hl
  | .branch _ hc _ hs, hl =>
    ⟨hc.admitted hl.tail, hs.admitted (hl.tail.covers hc.covers).tail, trivial⟩
  | .branchElse _ hc _ hs _ _ hs', hl => by
    have hyes := (hl.tail.covers hc.covers).tail
    exact ⟨hc.admitted hl.tail, hs.admitted hyes, hs'.admitted (hyes.spans hs.spans).tail.tail⟩

theorem SpellsSuite.admitted {inMethod : Bool} {ts rest : List Token} {st : Stmt} :
    SpellsSuite known inMethod ts st rest → Lexed ts → st.AdmittedSuite known inMethod
  | .block _ hu hb, hl => ⟨hb.ne_nil hl.tail hu, hb.admitted hl.tail.tail⟩

theorem SpellsBlock.admitted {inMethod : Bool} {ts rest : List Token} {body : List Stmt} :
    SpellsBlock known inMethod ts body rest → Lexed ts → Stmt.AdmittedAll known inMethod body
  | .nil _, _ => trivial
  | .cons hs hb, hl => ⟨hs.admitted hl, hb.admitted (hl.spans hs.spans)⟩

end

/-! Methods and classes -/

theorem SpellsNames.isName {names : List String} (h : SpellsNames ts names rest)
    (hl : Lexed ts) : ∀ name ∈ names, IsName name := by
  induction h with
  | one ht => exact List.forall_mem_cons.2 ⟨hl.head_of_eq ht rfl, List.forall_mem_nil _⟩
  | cons ht _ _ ih => exact List.forall_mem_cons.2 ⟨hl.head_of_eq ht rfl, ih hl.tail.tail⟩

theorem SpellsParams.isName {names : List String} (h : SpellsParams ts names rest)
    (hl : Lexed ts) : (∀ name ∈ names, IsName name) ∧ names.Nodup := by
  cases h with
  | nil _ => exact ⟨List.forall_mem_nil _, .nil⟩
  | list hs _ hnodup => exact ⟨hs.isName hl, hnodup⟩

theorem withoutReceiver_of_head {names : List String} (h : names.head? ≠ some "self") :
    withoutReceiver names = names := by
  unfold withoutReceiver
  split
  · exact absurd rfl h
  · rfl

theorem head?_ne_of_withoutReceiver {names : List String} (h : withoutReceiver names = names) :
    names.head? ≠ some "self" := by
  intro hself
  obtain ⟨rest, rfl⟩ := List.head?_eq_some_iff.1 hself
  exact List.cons_ne_self "self" rest h.symm

/-- Only one receiver can be left out. -/
theorem withoutReceiver_withoutReceiver {names : List String} (h : names.Nodup) :
    withoutReceiver (withoutReceiver names) = withoutReceiver names := by
  by_cases hself : names.head? = some "self"
  · obtain ⟨rest, rfl⟩ := List.head?_eq_some_iff.1 hself
    apply withoutReceiver_of_head
    intro hrest
    exact (List.nodup_cons.1 h).1 (List.mem_of_mem_head? hrest)
  · rw [withoutReceiver_of_head hself, withoutReceiver_of_head hself]

theorem withoutReceiver_sublist (names : List String) :
    (withoutReceiver names).Sublist names := by
  unfold withoutReceiver
  split
  · exact List.sublist_cons_self _ _
  · exact List.Sublist.refl _

theorem mem_foldl_addMethod {ms acc : List Method} {m : Method}
    (h : m ∈ ms.foldl addMethod acc) : m ∈ acc ∨ m ∈ ms := by
  induction ms generalizing acc with
  | nil => exact .inl h
  | cons x ms ih =>
    rcases ih h with h | h
    · rcases List.mem_append.1 h with h | h
      · exact .inl (List.mem_of_mem_filter h)
      · rw [List.mem_singleton.1 h]
        exact .inr List.mem_cons_self
    · exact .inr (List.mem_cons_of_mem x h)

theorem nodup_addMethod {ms : List Method} (m : Method) (h : (ms.map (·.name)).Nodup) :
    ((addMethod ms m).map (·.name)).Nodup := by
  rw [addMethod, List.map_append, List.nodup_append]
  refine ⟨h.sublist (List.filter_sublist.map _), List.nodup_cons.2 ⟨List.not_mem_nil, .nil⟩, ?_⟩
  intro a ha b hb
  obtain ⟨x, hx, rfl⟩ := List.mem_map.1 ha
  obtain ⟨-, hne⟩ := List.mem_filter.1 hx
  rw [List.mem_singleton.1 hb]
  exact bne_iff_ne.1 hne

theorem nodup_foldl_addMethod {ms acc : List Method} (h : (acc.map (·.name)).Nodup) :
    ((ms.foldl addMethod acc).map (·.name)).Nodup := by
  induction ms generalizing acc with
  | nil => exact h
  | cons m ms ih => exact ih (nodup_addMethod m h)

theorem nodup_keptMethods (ms : List Method) : ((keptMethods ms).map (·.name)).Nodup :=
  nodup_foldl_addMethod .nil

theorem keptMethods_ne_nil {ms : List Method} (h : ms ≠ []) : keptMethods ms ≠ [] := by
  have step (ms : List Method) : ∀ acc, acc ≠ [] → ms.foldl addMethod acc ≠ [] := by
    induction ms with
    | nil => exact fun acc h => h
    | cons m ms ih => exact fun acc _ => ih _ (by simp [addMethod])
  cases ms with
  | nil => exact absurd rfl h
  | cons m ms => exact step ms _ (by simp [addMethod])

theorem SpellsMethods.admitted {ms : List Method} (h : SpellsMethods known ts ms rest)
    (hl : Lexed ts) : ∀ m ∈ ms, m.Admitted known := by
  induction h with
  | nil _ =>
    intro m hm
    cases hm
  | cons _ hu _ hp _ hs _ ih =>
    obtain ⟨hnames, hnodup⟩ := hp.isName hl.tail.tail.tail
    have hbody := (hl.tail.tail.tail.covers hp.covers).tail
    refine List.forall_mem_cons.2 ⟨?_, ih (hbody.spans hs.spans)⟩
    have hsub := withoutReceiver_sublist
    exact ⟨hl.tail.head_of_eq hu rfl, fun name hname => hnames name ((hsub _).mem hname),
      hnodup.sublist (hsub _), withoutReceiver_withoutReceiver hnodup, _, _, rfl,
      hs.admitted hbody⟩

theorem SpellsMethods.ne_nil {t : Token} {ms : List Method} (h : SpellsMethods known ts ms rest)
    (hl : Lexed (t :: ts)) (ht : t.kind = .indent) : ms ≠ [] := by
  cases h with
  | nil hu => exact absurd hu (hl.spaced.ne_dedent ht)
  | cons _ _ _ _ _ _ _ => exact List.cons_ne_nil _ _

/-- Inside a class, what can be constructed is what its table holds afterwards. -/
theorem knownIn_eq_contains (classes : ClassTable) (c : Class) :
    knownIn classes c.name = Dict.contains (classes.add c) := by
  funext other
  rw [knownIn, Dict.contains, Dict.contains, ClassTable.get?_add]
  by_cases h : other = c.name
  · simp [h]
  · simp [h, Ne.symm h]

theorem SpellsClass.admitted {classes : ClassTable} {c : Class}
    (h : SpellsClass classes ts c rest) (hl : Lexed ts)
    (hc : classes.Admitted classes.contains) :
    classes.contains c.name = false ∧ c.Admitted (classes.add c).contains := by
  cases h with
  | intro ht hnew hp _ _ hw hm =>
    rename_i t u v ts name parent ms w xs _ _
    have hknown := knownIn_eq_contains classes ⟨name, keptMethods ms, parent⟩
    rw [← hknown]
    have hmid := hl.tail.covers hp.covers
    have hms := hm.admitted hmid.tail.tail.tail
    refine ⟨hnew, .intro (hl.head_of_eq ht rfl) (keptMethods_ne_nil (hm.ne_nil hmid.tail.tail hw))
      (nodup_keptMethods ms) ?_ ?_⟩
    · intro m hmem
      exact hms m ((mem_foldl_addMethod hmem).resolve_left List.not_mem_nil)
    · intro p hmem
      cases hp with
      | none => cases hmem
      | some _ _ _ hget =>
        cases hmem
        refine (hc.cls hget).mono fun other hother => ?_
        rw [knownIn, hother, Bool.true_or]

/-- A class enters its table as a new one, which keeps the table admitted. -/
theorem SpellsClass.admitted_add {classes : ClassTable} {c : Class}
    (h : SpellsClass classes ts c rest) (hl : Lexed ts)
    (hc : classes.Admitted classes.contains) :
    (classes.add c).Admitted (classes.add c).contains ∧
      ∀ {name d}, Dict.get? classes name = some d → Dict.get? (classes.add c) name = some d := by
  obtain ⟨hnew, hadmitted⟩ := h.admitted hl hc
  have hextend {name : String} {d : Class} (hget : Dict.get? classes name = some d) :
      Dict.get? (classes.add c) name = some d := by
    rw [ClassTable.get?_add, if_neg]
    · exact hget
    · rintro rfl
      rw [Dict.contains_of_get? hget] at hnew
      cases hnew
  have hwider : ∀ name, Dict.contains classes name = true →
      Dict.contains (classes.add c) name = true := by
    intro name hname
    obtain ⟨d, hd⟩ := Option.isSome_iff_exists.1 hname
    exact Dict.contains_of_get? (hextend hd)
  exact ⟨(hc.mono hwider).add hadmitted, hextend⟩

/-- Whatever the tokens of a source text spell as a program is admitted, and so is its table. -/
theorem SpellsProgram.admitted {classes after : ClassTable} {body : List Stmt}
    (h : SpellsProgram classes ts body after) (hl : Lexed ts)
    (hc : classes.Admitted classes.contains) :
    after.Admitted after.contains ∧
      (∀ {name c}, Dict.get? classes name = some c → Dict.get? after name = some c) ∧
      ∀ st ∈ body, st.AdmittedTop after.contains := by
  induction h with
  | nil => exact ⟨hc, id, fun st hst => (by cases hst)⟩
  | cls ht hcls hp ih =>
    rename_i t ts r classes after c body
    obtain ⟨hadd, hextend⟩ := hcls.admitted_add hl.tail hc
    obtain ⟨hafter, hmore, hbody⟩ := ih (hl.tail.spans hcls.spans) hadd
    refine ⟨hafter, fun hget => hmore (hextend hget), List.forall_mem_cons.2 ⟨?_, hbody⟩⟩
    exact .inl ⟨c, t.pos, rfl⟩
  | stmt hst hp ih =>
    rename_i ts r classes after st body
    obtain ⟨hafter, hmore, hbody⟩ := ih (hl.spans hst.spans) hc
    refine ⟨hafter, hmore, List.forall_mem_cons.2 ⟨.inr ?_, hbody⟩⟩
    refine (hst.admitted hl).mono fun name hname => ?_
    obtain ⟨d, hd⟩ := Option.isSome_iff_exists.1 hname
    exact Dict.contains_of_get? (hmore hd)

end ClassLang.Grammar
