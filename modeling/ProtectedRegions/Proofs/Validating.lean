import ProtectedRegions.Configuration
import ProtectedRegions.Proofs.Coping

/-
  Validating — which settings are refused as a configuration, and which come through

  Entries are read setting by setting, and most of what can be wrong with one is said
  with the name of its parser. A few settings are taken as they are, and end the reading
  with a defect where they are needed: values that are written as names, endings or
  globs without a look at what they are, a start expression that is no text, and endings
  or globs that have no items. Expressions are given up on when they are too large. Two
  settings are kept, and found to be no texts when a file is parsed: the closing token of
  a comment, and the end expression.

  What a runtime writes and reads is open here: the results hold of every one, whatever
  it gives up on. The values are those of plain data.

  What is proved:
    1. `entry_eq_defect_iff` — the settings at which an entry ends in a defect.
    2. `complete_iff` — a list of entries is answered by parsers that cope with every text,
       or by what is wrong with the configuration, unless such a setting is met; settings
       of the kinds they ought to be never lead there.
    3. `not_forall_complete` — a start expression that is a number.
-/

namespace ProtectedRegions
namespace Configuration

variable {rt : Runtime} {settings : Settings} {v : Value} {d : Defect} {f : Failure}
  {index : Nat} {items : List Value} {e : ParserEntry} {entries : List ParserEntry}
  {fault : SettingFault}

/-! ## Steps that can fail -/

section Steps

variable {ε ε' α β : Type} {x : Except ε α} {next : α → Except ε β} {g : α → Except ε β}
  {l : List α} {out : List β} {err : ε}

theorem bind_eq_ok_iff {b : β} : x >>= next = .ok b ↔ ∃ a, x = .ok a ∧ next a = .ok b := by
  cases x <;> simp [bind, Except.bind]

theorem bind_eq_error_iff :
    x >>= next = .error err ↔ x = .error err ∨ ∃ a, x = .ok a ∧ next a = .error err := by
  cases x <;> simp [bind, Except.bind]

theorem mapError_eq_ok_iff {h : ε → ε'} {a : α} : x.mapError h = .ok a ↔ x = .ok a := by
  cases x <;> simp [Except.mapError]

theorem mapError_eq_error_iff {h : ε → ε'} {err : ε'} :
    x.mapError h = .error err ↔ ∃ e, x = .error e ∧ h e = err := by
  cases x <;> simp [Except.mapError]

theorem mapM_eq_ok (h : l.mapM g = .ok out) :
    out.length = l.length ∧ ∀ (i : Nat) a, l[i]? = some a → ∃ b, out[i]? = some b ∧ g a = .ok b := by
  induction l generalizing out with
  | nil =>
    obtain rfl : [] = out := Except.ok.inj h
    simp
  | cons first rest ih =>
    rw [List.mapM_cons] at h
    obtain ⟨b, hb, h⟩ := bind_eq_ok_iff.mp h
    obtain ⟨others, hrest, hout⟩ := bind_eq_ok_iff.mp h
    obtain rfl : b :: others = out := Except.ok.inj hout
    obtain ⟨hlength, hitems⟩ := ih hrest
    refine ⟨by simp [hlength], ?_⟩
    intro i a ha
    cases i with
    | zero =>
      obtain rfl : first = a := by simpa using ha
      exact ⟨b, rfl, hb⟩
    | succ i => exact hitems i a ha

theorem mem_of_mapM {b : β} (h : l.mapM g = .ok out) (hb : b ∈ out) : ∃ a ∈ l, g a = .ok b := by
  obtain ⟨hlength, hitems⟩ := mapM_eq_ok h
  obtain ⟨i, hi, rfl⟩ := List.getElem_of_mem hb
  have ha : l[i]? = some l[i] := List.getElem?_eq_getElem (hlength ▸ hi)
  obtain ⟨b, hb, hgb⟩ := hitems i _ ha
  obtain rfl : out[i] = b := by simpa [hi] using hb
  exact ⟨_, List.mem_of_getElem? ha, hgb⟩

/-- A list fails at its first item that does. -/
def FirstFault (g : α → Except ε β) (l : List α) (err : ε) : Prop :=
  ∃ (i : Nat) (a : α), l[i]? = some a ∧ g a = .error err ∧ ∀ j c, j < i → l[j]? = some c → ∃ b, g c = .ok b

theorem firstFault_cons {first : α} {rest : List α} : FirstFault g (first :: rest) err ↔
    g first = .error err ∨ (∃ b, g first = .ok b) ∧ FirstFault g rest err := by
  constructor
  · intro h
    obtain ⟨i, a, ha, hfault, hbefore⟩ := h
    cases i with
    | zero =>
      obtain rfl : first = a := by simpa using ha
      exact .inl hfault
    | succ i =>
      refine .inr ⟨hbefore 0 first (Nat.zero_lt_succ i) rfl, i, a, ha, hfault, ?_⟩
      intro j c hj hc
      exact hbefore (j + 1) c (Nat.succ_lt_succ hj) hc
  · intro h
    rcases h with hfault | ⟨hfirst, i, a, ha, hfault, hbefore⟩
    · exact ⟨0, first, rfl, hfault, by simp⟩
    · refine ⟨i + 1, a, ha, hfault, ?_⟩
      intro j c hj hc
      cases j with
      | zero =>
        obtain rfl : first = c := by simpa using hc
        exact hfirst
      | succ j => exact hbefore j c (Nat.lt_of_succ_lt_succ hj) hc

theorem mapM_eq_error_iff : l.mapM g = .error err ↔ FirstFault g l err := by
  induction l with
  | nil => simp [FirstFault, pure, Except.pure]
  | cons first rest ih =>
    rw [List.mapM_cons, firstFault_cons, bind_eq_error_iff, ← ih]
    apply or_congr_right
    constructor
    · intro h
      obtain ⟨b, hb, hrest⟩ := h
      rcases bind_eq_error_iff.mp hrest with hrest | ⟨_, _, hpure⟩
      · exact ⟨⟨b, hb⟩, hrest⟩
      · cases hpure
    · intro h
      obtain ⟨⟨b, hb⟩, hrest⟩ := h
      exact ⟨b, hb, bind_eq_error_iff.mpr (.inl hrest)⟩

end Steps

/-! ## Comments -/

/-- A value that is given for the comments of an entry is nested too deep to be written. -/
inductive DeepSyntax (rt : Runtime) (settings : Settings) : Prop where
  | preset (given : (Value.lookup "preset" settings).truthy = true)
      (alone : (Value.lookup "comments" settings).truthy = false)
      (deep : rt.write (Value.lookup "preset" settings) = .error .tooDeep)
  | opening {items : List Value} {i : Nat} {c : Settings}
      (alone : (Value.lookup "preset" settings).truthy = false)
      (comments : Value.lookup "comments" settings = .list items)
      (here : items[i]? = some (.mapping c))
      (before : ∀ j v, j < i → items[j]? = some v → ∃ k, comment rt v = .ok k)
      (deep : rt.write (openingValue c) = .error .tooDeep)

theorem guarded_eq_defect_iff : guarded rt v = .error (.defect d) ↔
    d = .deepValue ∧ rt.write v = .error .tooDeep := by
  unfold guarded
  rw [mapError_eq_error_iff]
  constructor
  · intro h
    obtain ⟨why, hwrite, heq⟩ := h
    cases why with
    | tooLong limit => cases heq
    | tooDeep => exact ⟨by simpa using heq.symm, hwrite⟩
  · intro h
    exact ⟨.tooDeep, h.2, by simp [h.1]⟩

theorem guarded_ne_filter {why : FilterFault} : guarded rt v ≠ .error (.filter why) := by
  intro h
  obtain ⟨fault, -, heq⟩ := mapError_eq_error_iff.mp h
  cases fault <;> cases heq

theorem configured_ne_defect {opening : Text} {closing : Value} :
    (Comment.configured opening closing).mapError (.entry ∘ .comment) ≠
      .error (SettingFault.defect d) := by
  intro h
  obtain ⟨_, -, heq⟩ := mapError_eq_error_iff.mp h
  cases heq

theorem comment_eq_defect_iff : comment rt v = .error (.defect d) ↔
    d = .deepValue ∧ ∃ c, v = .mapping c ∧ rt.write (openingValue c) = .error .tooDeep := by
  cases v with
  | text opening => simpa [comment] using configured_ne_defect
  | mapping c =>
    rw [comment, bind_eq_error_iff, guarded_eq_defect_iff]
    simp [configured_ne_defect]
  | _ => simp [comment]

theorem comment_ne_filter {why : FilterFault} : comment rt v ≠ .error (.filter why) := by
  intro h
  cases v with
  | text opening =>
    obtain ⟨_, -, heq⟩ := mapError_eq_error_iff.mp h
    cases heq
  | mapping c =>
    rcases bind_eq_error_iff.mp h with h | ⟨_, -, h⟩
    · exact guarded_ne_filter h
    · obtain ⟨_, -, heq⟩ := mapError_eq_error_iff.mp h
      cases heq
  | _ => cases h

theorem comment_eq_ok {c : Comment} (h : comment rt v = .ok c) :
    ∃ opening closing, Comment.configured opening closing = .ok c ∧
      (closing = .null ∨ ∃ settings, v = .mapping settings ∧
        closing = Value.lookup "end" settings) := by
  cases v with
  | text opening => exact ⟨opening, .null, mapError_eq_ok_iff.mp h, .inl rfl⟩
  | mapping settings =>
    obtain ⟨opening, -, hmade⟩ := bind_eq_ok_iff.mp h
    exact ⟨opening, _, mapError_eq_ok_iff.mp hmade, .inr ⟨settings, rfl, rfl⟩⟩
  | _ => cases h

/-- What the comments of an entry are read from: a preset, or a list. -/
theorem lexicon_cases (rt : Runtime) (settings : Settings) :
    (∃ fault, lexicon rt settings = .error (.entry fault)) ∨
      ((Value.lookup "preset" settings).truthy = true ∧
        (Value.lookup "comments" settings).truthy = false ∧
        lexicon rt settings = presetLexicon rt (Value.lookup "preset" settings)) ∨
      ∃ items, (Value.lookup "preset" settings).truthy = false ∧
        Value.lookup "comments" settings = .list items ∧
        lexicon rt settings = listedLexicon rt items := by
  cases hpreset : (Value.lookup "preset" settings).truthy with
  | true =>
    cases hcomments : (Value.lookup "comments" settings).truthy with
    | true => exact .inl ⟨.presetAndComments, by simp [lexicon, hpreset, hcomments]⟩
    | false => exact .inr (.inl ⟨rfl, rfl, by simp [lexicon, hpreset, hcomments]⟩)
  | false =>
    cases hvalue : Value.lookup "comments" settings with
    | list items => exact .inr (.inr ⟨items, rfl, rfl, by simp [lexicon, hpreset, hvalue]⟩)
    | _ => exact .inl ⟨.noComments, by simp [lexicon, hpreset, hvalue]⟩

theorem lexicon_eq_defect_iff : lexicon rt settings = .error (.defect d) ↔
    d = .deepValue ∧ DeepSyntax rt settings := by
  constructor
  · intro h
    rcases lexicon_cases rt settings with ⟨fault, hl⟩ | ⟨given, alone, hl⟩ |
      ⟨items, alone, comments, hl⟩
    · simp [hl] at h
    · rcases bind_eq_error_iff.mp (hl ▸ h) with h | ⟨name, -, h⟩
      · obtain ⟨rfl, deep⟩ := guarded_eq_defect_iff.mp h
        exact ⟨rfl, .preset given alone deep⟩
      · split at h <;> cases h
    · rcases bind_eq_error_iff.mp (hl ▸ h) with h | ⟨cs, -, h⟩
      · obtain ⟨i, v, here, hfault, before⟩ := mapM_eq_error_iff.mp h
        obtain ⟨rfl, c, rfl, deep⟩ := comment_eq_defect_iff.mp hfault
        exact ⟨rfl, .opening alone comments here before deep⟩
      · split at h <;> cases h
  · intro h
    obtain ⟨rfl, deepSyntax⟩ := h
    cases deepSyntax with
    | preset given alone deep =>
      have hl : lexicon rt settings = presetLexicon rt (Value.lookup "preset" settings) := by
        simp [lexicon, given, alone]
      rw [hl]
      exact bind_eq_error_iff.mpr (.inl (guarded_eq_defect_iff.mpr ⟨rfl, deep⟩))
    | @opening items _ _ alone comments here before deep =>
      have hl : lexicon rt settings = listedLexicon rt items := by
        simp [lexicon, alone, comments]
      rw [hl]
      refine bind_eq_error_iff.mpr (.inl (mapM_eq_error_iff.mpr ⟨_, _, here, ?_, before⟩))
      exact comment_eq_defect_iff.mpr ⟨rfl, _, rfl, deep⟩

theorem lexicon_ne_filter {why : FilterFault} : lexicon rt settings ≠ .error (.filter why) := by
  intro h
  rcases lexicon_cases rt settings with ⟨fault, hl⟩ | ⟨-, -, hl⟩ | ⟨items, -, -, hl⟩
  · simp [hl] at h
  · rcases bind_eq_error_iff.mp (hl ▸ h) with h | ⟨name, -, h⟩
    · exact guarded_ne_filter h
    · split at h <;> cases h
  · rcases bind_eq_error_iff.mp (hl ▸ h) with h | ⟨cs, -, h⟩
    · obtain ⟨_, _, -, hfault, -⟩ := mapM_eq_error_iff.mp h
      exact comment_ne_filter hfault
    · split at h <;> cases h

theorem lexicon_eq_ok {l : NonemptyLexicon} (h : lexicon rt settings = .ok l) :
    (∃ p : Preset, l.1 = p.lexicon) ∨
      ∃ described, Value.lookup "comments" settings = .list described ∧
        described.mapM (comment rt) = .ok l.1 := by
  rcases lexicon_cases rt settings with ⟨fault, hl⟩ | ⟨-, -, hl⟩ | ⟨items, -, comments, hl⟩
  · simp [hl] at h
  · obtain ⟨name, -, h⟩ := bind_eq_ok_iff.mp (hl ▸ h)
    split at h
    · next p _ =>
      obtain rfl := Except.ok.inj h
      exact .inl ⟨p, rfl⟩
    · cases h
  · obtain ⟨cs, hcs, h⟩ := bind_eq_ok_iff.mp (hl ▸ h)
    split at h
    · cases h
    · obtain rfl := Except.ok.inj h
      exact .inr ⟨items, comments, hcs⟩

/-! ## Oracles -/

/-- The expressions of an oracle lead to a defect: the first is no text, which is found when
the second has been read, or one of them is given up on. -/
inductive BadPattern (rt : Runtime) (v : Value) : Defect → Prop where
  | noText {o : Settings} {start finish : Value} (mapping : v = .mapping o)
      (starts : Value.lookup? "start" o = some start)
      (ends : Value.lookup? "end" o = some finish) (noText : ∀ t, start ≠ .text t)
      (finishRead : ∀ t, finish = .text t → ∃ e, rt.read t = .ok e) : BadPattern rt v .startPattern
  | start {o : Settings} {t : Text} {finish : Value} {why : Expression.ReadFault} {d : Defect}
      (mapping : v = .mapping o) (starts : Value.lookup? "start" o = some (.text t))
      (ends : Value.lookup? "end" o = some finish) (unread : rt.read t = .error why)
      (defect : why.defect? = some d) : BadPattern rt v d
  | finish {o : Settings} {t : Text} {start : Value} {why : Expression.ReadFault} {d : Defect}
      (mapping : v = .mapping o) (starts : Value.lookup? "start" o = some start)
      (ends : Value.lookup? "end" o = some (.text t))
      (startRead : ∀ t, start = .text t → ∃ e, rt.read t = .ok e)
      (unread : rt.read t = .error why) (defect : why.defect? = some d) : BadPattern rt v d

theorem patternFault_eq_defect_iff {why : PatternFault} : patternFault why = .defect d ↔
    (why = .noText ∧ d = .startPattern) ∨ ∃ unread, why = .unread unread ∧
      unread.defect? = some d := by
  cases why with
  | unread fault => cases hdefect : fault.defect? <;> simp [patternFault, hdefect]
  | noIdGroup => simp [patternFault]
  | noText => simp [patternFault, eq_comm]

theorem patternFault_ne_filter {why : PatternFault} {filter : FilterFault} :
    patternFault why ≠ .filter filter := by
  cases why with
  | unread fault => cases hdefect : fault.defect? <;> simp [patternFault, hdefect]
  | _ => simp [patternFault]

section Expressions

variable {read : Text → Expression.Read Expression} {start finish : Value} {why : PatternFault}

theorem startOf_eq_error_iff : PatternOracle.startOf read v = .error why ↔
    ∃ t unread, v = .text t ∧ read t = .error unread ∧ why = .unread unread := by
  cases v with
  | text t =>
    cases hread : read t <;>
      simp [PatternOracle.startOf, hread, Except.mapError, Except.map, eq_comm]
  | _ => simp [PatternOracle.startOf]

theorem startOf_eq_ok_iff {x : Option Expression} : PatternOracle.startOf read v = .ok x ↔
    (∃ t e, v = .text t ∧ read t = .ok e ∧ x = some e) ∨ (∀ t, v ≠ .text t) ∧ x = none := by
  cases v with
  | text t =>
    cases hread : read t <;>
      simp [PatternOracle.startOf, hread, Except.mapError, Except.map, eq_comm]
  | _ => simp [PatternOracle.startOf, eq_comm]

theorem finishOf_eq_error_iff : PatternOracle.finishOf read v = .error why ↔
    ∃ t unread, v = .text t ∧ read t = .error unread ∧ why = .unread unread := by
  cases v with
  | text t =>
    cases hread : read t <;>
      simp [PatternOracle.finishOf, hread, Except.mapError, Except.map, eq_comm]
  | _ => simp [PatternOracle.finishOf]

theorem exists_finishOf_iff : (∃ x, PatternOracle.finishOf read v = .ok x) ↔
    ∀ t, v = .text t → ∃ e, read t = .ok e := by
  cases v with
  | text t =>
    cases hread : read t <;>
      simp [PatternOracle.finishOf, hread, Except.mapError, Except.map]
  | _ => simp [PatternOracle.finishOf]

theorem exists_startOf_iff : (∃ x, PatternOracle.startOf read v = .ok x) ↔
    ∀ t, v = .text t → ∃ e, read t = .ok e := by
  cases v with
  | text t =>
    cases hread : read t <;>
      simp [PatternOracle.startOf, hread, Except.mapError, Except.map]
  | _ => simp [PatternOracle.startOf]

theorem pair_error {e : Expression} {x : FinishPattern}
    (h : PatternOracle.pair e x = .error why) : why = .noIdGroup := by
  unfold PatternOracle.pair at h
  split at h
  · cases h
  · exact (Except.error.inj h).symm

/-- A pair is refused at its first text that is not read, and then at a first value that is no
text or names no id. -/
theorem configured_error_cases (h : PatternOracle.configured read start finish = .error why) :
    (∃ t unread, start = .text t ∧ read t = .error unread ∧ why = .unread unread) ∨
      (∃ t unread, finish = .text t ∧ read t = .error unread ∧ why = .unread unread ∧
        ∀ t, start = .text t → ∃ e, read t = .ok e) ∨
      ((∀ t, start ≠ .text t) ∧ why = .noText ∧ ∀ t, finish = .text t → ∃ e, read t = .ok e) ∨
      why = .noIdGroup := by
  rcases bind_eq_error_iff.mp h with hstart | ⟨x, hstart, h⟩
  · exact .inl (startOf_eq_error_iff.mp hstart)
  · have startRead := exists_startOf_iff.mp ⟨x, hstart⟩
    rcases bind_eq_error_iff.mp h with hfinish | ⟨y, hfinish, h⟩
    · obtain ⟨t, unread, hvalue, hread, hwhy⟩ := finishOf_eq_error_iff.mp hfinish
      exact .inr (.inl ⟨t, unread, hvalue, hread, hwhy, startRead⟩)
    · have finishRead := exists_finishOf_iff.mp ⟨y, hfinish⟩
      rcases startOf_eq_ok_iff.mp hstart with ⟨t, e, -, -, rfl⟩ | ⟨noText, rfl⟩
      · exact .inr (.inr (.inr (pair_error h)))
      · exact .inr (.inr (.inl ⟨noText, (Except.error.inj h).symm, finishRead⟩))

theorem configured_of_no_text (noText : ∀ t, start ≠ .text t)
    (finishRead : ∀ t, finish = .text t → ∃ e, read t = .ok e) :
    PatternOracle.configured read start finish = .error .noText := by
  obtain ⟨y, hfinish⟩ := exists_finishOf_iff.mpr finishRead
  have hstart : PatternOracle.startOf read start = .ok none :=
    startOf_eq_ok_iff.mpr (.inr ⟨noText, rfl⟩)
  exact bind_eq_error_iff.mpr (.inr ⟨none, hstart,
    bind_eq_error_iff.mpr (.inr ⟨y, hfinish, rfl⟩)⟩)

theorem configured_of_start {t : Text} {unread : Expression.ReadFault}
    (h : read t = .error unread) :
    PatternOracle.configured read (.text t) finish = .error (.unread unread) :=
  bind_eq_error_iff.mpr (.inl (startOf_eq_error_iff.mpr ⟨t, unread, rfl, h, rfl⟩))

theorem configured_of_finish {t : Text} {unread : Expression.ReadFault}
    (startRead : ∀ t, start = .text t → ∃ e, read t = .ok e) (h : read t = .error unread) :
    PatternOracle.configured read start (.text t) = .error (.unread unread) := by
  obtain ⟨x, hstart⟩ := exists_startOf_iff.mpr startRead
  have hfinish : PatternOracle.finishOf read (.text t) = .error (.unread unread) :=
    finishOf_eq_error_iff.mpr ⟨t, unread, rfl, h, rfl⟩
  exact bind_eq_error_iff.mpr (.inr ⟨x, hstart, bind_eq_error_iff.mpr (.inl hfinish)⟩)

/-- A pair whose second value is a text has an expression there. -/
theorem configured_finish {t : Text} {o : PatternOracle} {v : Value}
    (h : PatternOracle.configured read start (.text t) = .ok o) : o.finish ≠ .unusable v := by
  obtain ⟨x, -, h⟩ := bind_eq_ok_iff.mp h
  obtain ⟨y, hfinish, h⟩ := bind_eq_ok_iff.mp h
  have hexpression : ∃ e, y = .expression e := by
    cases hread : read t with
    | error unread => simp [PatternOracle.finishOf, hread, Except.mapError, Except.map] at hfinish
    | ok e =>
      refine ⟨e, ?_⟩
      simpa [PatternOracle.finishOf, hread, Except.mapError, Except.map, eq_comm] using hfinish
  obtain ⟨e, rfl⟩ := hexpression
  cases x with
  | none => cases h
  | some start =>
    have hpair : PatternOracle.pair start (.expression e) = .ok o := h
    unfold PatternOracle.pair at hpair
    split at hpair
    · obtain rfl := Except.ok.inj hpair
      simp
    · cases hpair

end Expressions

theorem oracle_eq_error (h : oracle rt v = .error fault) :
    (∃ why, fault = .entry why) ∨ ∃ o start finish why, v = .mapping o ∧
      Value.lookup? "start" o = some start ∧ Value.lookup? "end" o = some finish ∧
      PatternOracle.configured rt.read start finish = .error why ∧ patternFault why = fault := by
  unfold oracle at h
  split at h
  · cases h
  · split at h
    · cases h
    · exact .inl ⟨_, (Except.error.inj h).symm⟩
  · next o =>
    split at h
    · next start finish starts ends =>
      obtain ⟨why, hwhy, heq⟩ := mapError_eq_error_iff.mp h
      exact .inr ⟨o, start, finish, why, rfl, starts, ends, hwhy, heq⟩
    · exact .inl ⟨_, (Except.error.inj h).symm⟩
  · exact .inl ⟨_, (Except.error.inj h).symm⟩

theorem oracle_of_configured {o : Settings} {start finish : Value} {why : PatternFault}
    (starts : Value.lookup? "start" o = some start) (ends : Value.lookup? "end" o = some finish)
    (h : PatternOracle.configured rt.read start finish = .error why) :
    oracle rt (.mapping o) = .error (patternFault why) := by
  simp [oracle, starts, ends, h, Except.mapError]

theorem oracle_eq_defect_iff : oracle rt v = .error (.defect d) ↔ BadPattern rt v d := by
  constructor
  · intro h
    rcases oracle_eq_error h with ⟨_, hentry⟩ | ⟨o, start, finish, why, mapping, starts, ends,
      hwhy, hfault⟩
    · cases hentry
    · rcases configured_error_cases hwhy with ⟨t, unread, rfl, hread, rfl⟩ |
        ⟨t, unread, rfl, hread, rfl, startRead⟩ | ⟨noText, rfl, finishRead⟩ | rfl
      · rcases patternFault_eq_defect_iff.mp hfault with ⟨hno, -⟩ | ⟨_, heq, hdefect⟩
        · cases hno
        · obtain rfl := PatternFault.unread.inj heq
          exact .start mapping starts ends hread hdefect
      · rcases patternFault_eq_defect_iff.mp hfault with ⟨hno, -⟩ | ⟨_, heq, hdefect⟩
        · cases hno
        · obtain rfl := PatternFault.unread.inj heq
          exact .finish mapping starts ends startRead hread hdefect
      · rcases patternFault_eq_defect_iff.mp hfault with ⟨-, rfl⟩ | ⟨_, hno, -⟩
        · exact .noText mapping starts ends noText finishRead
        · cases hno
      · cases hfault
  · intro h
    cases h with
    | noText mapping starts ends noText finishRead =>
      rw [mapping]
      exact oracle_of_configured starts ends (configured_of_no_text noText finishRead)
    | start mapping starts ends unread defect =>
      rw [mapping, oracle_of_configured starts ends (configured_of_start unread)]
      exact congrArg _ (patternFault_eq_defect_iff.mpr (.inr ⟨_, rfl, defect⟩))
    | finish mapping starts ends startRead unread defect =>
      rw [mapping, oracle_of_configured starts ends (configured_of_finish startRead unread)]
      exact congrArg _ (patternFault_eq_defect_iff.mpr (.inr ⟨_, rfl, defect⟩))

theorem oracle_ne_filter {why : FilterFault} : oracle rt v ≠ .error (.filter why) := by
  intro h
  rcases oracle_eq_error h with ⟨_, hentry⟩ | ⟨_, _, _, _, -, -, -, -, hfault⟩
  · cases hentry
  · exact patternFault_ne_filter hfault

/-! ## Files -/

/-- A value without items, though it counts as given: the truth value, or a number. -/
def Numeric (v : Value) : Prop := v = .bool true ∨ (∃ n, v = .int n) ∨ ∃ x, v = .float x

/-- The setting that the files of an entry are chosen by, and the defect of one that has no
items. -/
inductive Choice (settings : Settings) : Value → Defect → Prop where
  | endings (given : (Value.lookup "extensions" settings).truthy = true)
      (alone : (Value.lookup "globs" settings).truthy = false) :
      Choice settings (Value.lookup "extensions" settings) .endings
  | globs (alone : (Value.lookup "extensions" settings).truthy = false)
      (given : (Value.lookup "globs" settings).truthy = true) :
      Choice settings (Value.lookup "globs" settings) .globs

theorem Choice.given (h : Choice settings v d) : v.truthy = true := by
  cases h <;> assumption

/-- The setting that the files are chosen by leads to a defect: it has no items, or has one that
is not written. -/
inductive BadFiles (rt : Runtime) (settings : Settings) : Defect → Prop where
  | noItems {v : Value} {d : Defect} (choice : Choice settings v d) (numeric : Numeric v) :
      BadFiles rt settings d
  | item {v : Value} {d : Defect} {items : List Value} {why : WriteFault}
      (choice : Choice settings v d) (parts : parts? v = some items)
      (unwritten : FirstFault rt.write items why) : BadFiles rt settings why.defect

theorem lookup_isJson (name : String) (json : Value.settingsAreJson settings = true) :
    (Value.lookup name settings).isJson = true := by
  unfold Value.lookup
  induction settings with
  | nil => rfl
  | cons first rest ih =>
    obtain ⟨k, v⟩ := first
    have hparts : k.isText = true ∧ v.isJson = true ∧ Value.settingsAreJson rest = true := by
      simpa [Value.settingsAreJson, and_assoc] using json
    cases k with
    | text k =>
      by_cases hk : k = name.toList
      · simpa [Value.lookup?, hk] using hparts.2.1
      · simpa [Value.lookup?, hk] using ih hparts.2.2
    | _ => cases hparts.1

theorem parts_eq_none_iff (json : v.isJson = true) (given : v.truthy = true) :
    parts? v = none ↔ Numeric v := by
  cases v with
  | bool b =>
    obtain rfl : b = true := given
    simp [parts?, Numeric]
  | null => cases given
  | date | moment | enclosing => cases json
  | _ => simp [parts?, Numeric]

theorem parts_ne_nil (given : v.truthy = true) (h : parts? v = some items) : items ≠ [] := by
  rintro rfl
  cases v <;> simp [parts?] at h <;> simp [Value.truthy, h] at given

section Chosen

variable {make : List Text → Except FilterFault Filter} {what : Defect}

theorem chosen_eq_error_iff (hmake : ∀ texts ≠ [], ∃ f, make texts = .ok f)
    (given : v.truthy = true) :
    chosen rt make what v = .error fault ↔
      (parts? v = none ∧ fault = .defect what) ∨
        ∃ items why, parts? v = some items ∧ FirstFault rt.write items why ∧
          fault = .defect why.defect := by
  unfold chosen
  cases hparts : parts? v with
  | none => simp [eq_comm]
  | some items =>
    have hmade : ∀ texts, items.mapM rt.write = .ok texts → ∃ f, make texts = .ok f := by
      intro texts hwrite
      have hlength := (mapM_eq_ok hwrite).1
      have hpos := List.length_pos_iff.mpr (parts_ne_nil given hparts)
      exact hmake texts (List.ne_nil_of_length_pos (hlength ▸ hpos))
    simp only [bind_eq_error_iff, mapError_eq_error_iff, mapError_eq_ok_iff, mapM_eq_error_iff]
    constructor
    · intro h
      rcases h with ⟨why, hfault, rfl⟩ | ⟨texts, hwrite, ⟨why, hrefused, -⟩ | ⟨_, -, hpure⟩⟩
      · exact .inr ⟨items, why, rfl, hfault, rfl⟩
      · obtain ⟨f, hf⟩ := hmade texts hwrite
        simp [hf] at hrefused
      · cases hpure
    · intro h
      rcases h with ⟨hnone, -⟩ | ⟨items', why, hitems, hfault, rfl⟩
      · cases hnone
      · obtain rfl := Option.some.inj hitems
        exact .inl ⟨why, hfault, rfl⟩

end Chosen

theorem filter_of_choice (rt : Runtime) (choice : Choice settings v d) :
    ∃ make, (∀ texts ≠ [], ∃ f, make texts = .ok f) ∧
      filter rt settings = chosen rt make d v := by
  cases choice with
  | endings given alone =>
    refine ⟨Filter.ofExtensions, fun texts hne => ?_, by simp [filter, given, alone]⟩
    simp [Filter.ofExtensions, hne]
  | globs alone given =>
    refine ⟨Filter.ofGlobs, fun texts hne => ?_, by simp [filter, given, alone]⟩
    simp [Filter.ofGlobs, hne]

theorem exists_choice (h : filter rt settings = .error fault) :
    fault = .entry .extensionsAndGlobs ∨ ∃ v d, Choice settings v d := by
  cases hext : (Value.lookup "extensions" settings).truthy <;>
    cases hglobs : (Value.lookup "globs" settings).truthy
  case true.true => exact .inl (by simpa [filter, hext, hglobs, eq_comm] using h)
  case true.false => exact .inr ⟨_, _, .endings hext hglobs⟩
  case false.true => exact .inr ⟨_, _, .globs hext hglobs⟩
  case false.false => simp [filter, hext, hglobs] at h

theorem filter_eq_error (h : filter rt settings = .error fault) :
    fault = .entry .extensionsAndGlobs ∨ ∃ v d, Choice settings v d ∧
      ((parts? v = none ∧ fault = .defect d) ∨ ∃ items why, parts? v = some items ∧
        FirstFault rt.write items why ∧ fault = .defect why.defect) := by
  rcases exists_choice h with hboth | ⟨v, d, choice⟩
  · exact .inl hboth
  · obtain ⟨make, hmake, heq⟩ := filter_of_choice rt choice
    exact .inr ⟨v, d, choice, (chosen_eq_error_iff hmake choice.given).mp (heq ▸ h)⟩

theorem filter_eq_defect_iff (json : Value.settingsAreJson settings = true) :
    filter rt settings = .error (.defect d) ↔ BadFiles rt settings d := by
  have hjson : ∀ v d, Choice settings v d → v.isJson = true := by
    intro v d choice
    cases choice <;> exact lookup_isJson _ json
  constructor
  · intro h
    rcases filter_eq_error h with hboth | ⟨v, what, choice, ⟨hparts, heq⟩ |
      ⟨items, why, hparts, hfault, heq⟩⟩
    · cases hboth
    · obtain rfl := SettingFault.defect.inj heq
      exact .noItems choice ((parts_eq_none_iff (hjson v _ choice) choice.given).mp hparts)
    · obtain rfl := SettingFault.defect.inj heq
      exact .item choice hparts hfault
  · intro h
    cases h with
    | noItems choice numeric =>
      obtain ⟨make, hmake, heq⟩ := filter_of_choice rt choice
      have hparts := (parts_eq_none_iff (hjson _ _ choice) choice.given).mpr numeric
      exact heq ▸ (chosen_eq_error_iff hmake choice.given).mpr (.inl ⟨hparts, rfl⟩)
    | item choice parts unwritten =>
      obtain ⟨make, hmake, heq⟩ := filter_of_choice rt choice
      exact heq ▸ (chosen_eq_error_iff hmake choice.given).mpr
        (.inr ⟨_, _, parts, unwritten, rfl⟩)

theorem filter_ne_filter {why : FilterFault} : filter rt settings ≠ .error (.filter why) := by
  intro h
  rcases filter_eq_error h with hboth | ⟨_, _, -, ⟨-, heq⟩ | ⟨_, _, -, -, heq⟩⟩
  · cases hboth
  · cases heq
  · cases heq

/-! ## Entries -/

/-- A setting that ends the reading of the entry at an index with a defect. The settings that
are read before it can be read. -/
inductive Misfit (rt : Runtime) (index : Nat) (settings : Settings) : Defect → Prop where
  | name {why : WriteFault} (unwritten : rt.write (nameValue settings index) = .error why) :
      Misfit rt index settings why.defect
  | comments {name : Text} (named : rt.write (nameValue settings index) = .ok name)
      (deep : DeepSyntax rt settings) : Misfit rt index settings .deepValue
  | oracle {name : Text} {l : NonemptyLexicon} {d : Defect}
      (named : rt.write (nameValue settings index) = .ok name)
      (comments : lexicon rt settings = .ok l)
      (bad : BadPattern rt (Value.lookup "oracle" settings) d) : Misfit rt index settings d
  | files {name : Text} {l : NonemptyLexicon} {o : PatternOracle} {d : Defect}
      (named : rt.write (nameValue settings index) = .ok name)
      (comments : lexicon rt settings = .ok l)
      (oracle : oracle rt (Value.lookup "oracle" settings) = .ok o)
      (bad : BadFiles rt settings d) : Misfit rt index settings d

theorem described_eq_error_iff {name : Text} : described rt name settings = .error fault ↔
    lexicon rt settings = .error fault ∨ ∃ l, lexicon rt settings = .ok l ∧
      (oracle rt (Value.lookup "oracle" settings) = .error fault ∨
        ∃ o, oracle rt (Value.lookup "oracle" settings) = .ok o ∧
          filter rt settings = .error fault) := by
  simp only [described, bind_eq_error_iff, pure, Except.pure, reduceCtorEq, and_false,
    exists_false, or_false]

theorem failure_eq_defect_iff {name : Text} : fault.failure name = .defect d ↔
    fault = .defect d := by
  cases fault <;> simp [SettingFault.failure]

/-- An entry ends in a defect at a setting that the parser cannot be made with. -/
theorem entry_eq_defect_iff (json : Value.settingsAreJson settings = true) :
    entry rt index (.mapping settings) = .error (.defect d) ↔ Misfit rt index settings d := by
  simp only [entry, bind_eq_error_iff, mapError_eq_error_iff, mapError_eq_ok_iff,
    failure_eq_defect_iff, Failure.defect.injEq, exists_eq_right, described_eq_error_iff,
    lexicon_eq_defect_iff, oracle_eq_defect_iff, filter_eq_defect_iff json]
  constructor
  · intro h
    rcases h with ⟨why, unwritten, rfl⟩ | ⟨name, named, ⟨rfl, deep⟩ | ⟨l, comments, bad |
      ⟨o, oracle, bad⟩⟩⟩
    · exact .name unwritten
    · exact .comments named deep
    · exact .oracle named comments bad
    · exact .files named comments oracle bad
  · intro h
    cases h with
    | name unwritten => exact .inl ⟨_, unwritten, rfl⟩
    | comments named deep => exact .inr ⟨_, named, .inl ⟨rfl, deep⟩⟩
    | oracle named comments bad => exact .inr ⟨_, named, .inr ⟨_, comments, .inl bad⟩⟩
    | files named comments oracle bad =>
      exact .inr ⟨_, named, .inr ⟨_, comments, .inr ⟨_, oracle, bad⟩⟩⟩

theorem entry_eq_ok (h : entry rt index v = .ok e) : ∃ settings l o f, v = .mapping settings ∧
    lexicon rt settings = .ok l ∧ oracle rt (Value.lookup "oracle" settings) = .ok o ∧
    e.parser.lexicon = l.1 ∧ e.parser.oracle = .patterns o ∧ filter rt settings = .ok f := by
  cases v with
  | mapping settings =>
    obtain ⟨name, -, h⟩ := bind_eq_ok_iff.mp h
    obtain ⟨l, hl, h⟩ := bind_eq_ok_iff.mp (mapError_eq_ok_iff.mp h)
    obtain ⟨o, ho, h⟩ := bind_eq_ok_iff.mp h
    obtain ⟨f, hf, h⟩ := bind_eq_ok_iff.mp h
    obtain rfl := Except.ok.inj h
    exact ⟨settings, l, o, f, rfl, hl, ho, rfl, rfl, hf⟩
  | _ => cases h

/-- An entry is a parser, wrong in a way that is said, or at a defect. That a filter is made of
nothing does not come up: a setting that is given and has items has one at least. -/
theorem entry_error (h : entry rt index v = .error f) :
    (∃ e, f = .config e) ∨ ∃ d, f = .defect d := by
  cases v with
  | mapping settings =>
    rcases bind_eq_error_iff.mp h with h | ⟨name, -, h⟩
    · obtain ⟨why, -, heq⟩ := mapError_eq_error_iff.mp h
      exact .inr ⟨_, heq.symm⟩
    · obtain ⟨fault, hfault, rfl⟩ := mapError_eq_error_iff.mp h
      cases fault with
      | entry why => exact .inl ⟨_, rfl⟩
      | defect d => exact .inr ⟨d, rfl⟩
      | filter why =>
        rcases described_eq_error_iff.mp hfault with hl | ⟨_, -, ho | ⟨_, -, hf⟩⟩
        · exact absurd hl lexicon_ne_filter
        · exact absurd ho oracle_ne_filter
        · exact absurd hf filter_ne_filter
  | _ => exact .inl ⟨_, (Except.error.inj h).symm⟩

/-! ## One parser for each item -/

/-- One parser for each item of a list, in order. -/
def Describes (rt : Runtime) (items : List Value) (entries : List ParserEntry) : Prop :=
  entries.length = items.length ∧
    ∀ i v, items[i]? = some v → ∃ e, entries[i]? = some e ∧ entry rt i v = .ok e

/-- A list is answered by one parser for each item, each parser coping with every text and each
filter with every path, or by what is wrong with the configuration. -/
def Complete (rt : Runtime) (items : List Value) : Prop :=
  (∃ entries, parsers rt (.list items) = .ok entries ∧ Describes rt items entries ∧
    ∀ e ∈ entries, e.parser.Total ∧ ∀ f, e.filter = some f → ∀ path, ∃ b, f.accepts path = b) ∨
  ∃ e, parsers rt (.list items) = .error (.config e)

/-- The first item that makes no parser has a setting that none can be made with. -/
def Breaks (rt : Runtime) (items : List Value) (d : Defect) : Prop :=
  ∃ i settings, items[i]? = some (.mapping settings) ∧ Misfit rt i settings d ∧
    ∀ j u, j < i → items[j]? = some u → ∃ e, entry rt j u = .ok e

/-- All items make parsers, and one of the parsers hides a setting that is no text. -/
def Hides (rt : Runtime) (items : List Value) (d : Defect) : Prop :=
  ∃ entries, parsers rt (.list items) = .ok entries ∧ ∃ e ∈ entries, e.parser.Hides d

theorem parsers_list (rt : Runtime) (items : List Value) : parsers rt (.list items) =
    if items = [] then .error (.config .noEntries)
    else items.zipIdx.mapM fun (item, index) => entry rt index item := by
  cases items <;> rfl

theorem getElem?_zipIdx_eq_some {i n : Nat} {u : Value} :
    items.zipIdx[i]? = some (u, n) ↔ items[i]? = some u ∧ n = i := by
  simp only [List.getElem?_zipIdx, Option.map_eq_some_iff, Prod.mk.injEq, Nat.zero_add]
  constructor
  · intro h
    obtain ⟨_, hu, rfl, rfl⟩ := h
    exact ⟨hu, rfl⟩
  · intro h
    exact ⟨u, h.1, rfl, h.2.symm⟩

theorem zipIdx_describes
    (h : items.zipIdx.mapM (fun (item, index) => entry rt index item) = .ok entries) :
    Describes rt items entries := by
  obtain ⟨hlength, hitems⟩ := mapM_eq_ok h
  refine ⟨by simpa using hlength, ?_⟩
  intro i v hv
  exact hitems i (v, i) (getElem?_zipIdx_eq_some.mpr ⟨hv, rfl⟩)

theorem zipIdx_eq_error_iff :
    items.zipIdx.mapM (fun (item, index) => entry rt index item) = .error f ↔
      ∃ i v, items[i]? = some v ∧ entry rt i v = .error f ∧
        ∀ j u, j < i → items[j]? = some u → ∃ e, entry rt j u = .ok e := by
  rw [mapM_eq_error_iff]
  constructor
  · intro h
    obtain ⟨i, ⟨v, n⟩, hv, hfault, hbefore⟩ := h
    obtain ⟨hv, rfl⟩ := getElem?_zipIdx_eq_some.mp hv
    refine ⟨_, v, hv, hfault, ?_⟩
    intro j u hj hu
    exact hbefore j (u, j) hj (getElem?_zipIdx_eq_some.mpr ⟨hu, rfl⟩)
  · intro h
    obtain ⟨i, v, hv, hfault, hbefore⟩ := h
    refine ⟨i, (v, i), getElem?_zipIdx_eq_some.mpr ⟨hv, rfl⟩, hfault, ?_⟩
    intro j ⟨u, n⟩ hj hu
    obtain ⟨hu, rfl⟩ := getElem?_zipIdx_eq_some.mp hu
    exact hbefore _ u hj hu

theorem parsers_eq_ok (h : parsers rt (.list items) = .ok entries) :
    Describes rt items entries := by
  rw [parsers_list] at h
  split at h
  · cases h
  · exact zipIdx_describes h

theorem isJson_of_getElem? {i : Nat} (json : Value.areJson items = true)
    (h : items[i]? = some v) : v.isJson = true := by
  induction items generalizing i with
  | nil => simp at h
  | cons first rest ih =>
    obtain ⟨hfirst, hrest⟩ : first.isJson = true ∧ Value.areJson rest = true := by
      simpa [Value.areJson] using json
    cases i with
    | zero =>
      obtain rfl : first = v := by simpa using h
      exact hfirst
    | succ i => exact ih hrest h

theorem parsers_eq_defect_iff (json : Value.areJson items = true) :
    parsers rt (.list items) = .error (.defect d) ↔ Breaks rt items d := by
  have hlist : parsers rt (.list items) = .error (.defect d) ↔
      items.zipIdx.mapM (fun (item, index) => entry rt index item) = .error (.defect d) := by
    rw [parsers_list]
    split
    · next hnil => simp [hnil, pure, Except.pure]
    · rfl
  rw [hlist, zipIdx_eq_error_iff]
  constructor
  · intro h
    obtain ⟨i, v, hi, hentry, hbefore⟩ := h
    have hjson := isJson_of_getElem? json hi
    cases v with
    | mapping settings =>
      exact ⟨i, settings, hi, (entry_eq_defect_iff hjson).mp hentry, hbefore⟩
    | _ => cases hentry
  · intro h
    obtain ⟨i, settings, hi, misfit, hbefore⟩ := h
    have hjson := isJson_of_getElem? json hi
    exact ⟨i, .mapping settings, hi, (entry_eq_defect_iff hjson).mpr misfit, hbefore⟩

theorem Describes.exists_settings (h : Describes rt items entries) (he : e ∈ entries) :
    ∃ i settings, items[i]? = some (.mapping settings) ∧
      entry rt i (.mapping settings) = .ok e := by
  obtain ⟨hlength, hitems⟩ := h
  obtain ⟨i, hi, rfl⟩ := List.getElem_of_mem he
  have hv : items[i]? = some items[i] := List.getElem?_eq_getElem (hlength ▸ hi)
  obtain ⟨e', he', hentry⟩ := hitems i _ hv
  obtain rfl : entries[i] = e' := by simpa [hi] using he'
  obtain ⟨settings, _, _, _, hmapping, -⟩ := entry_eq_ok hentry
  rw [hmapping] at hv hentry
  exact ⟨i, settings, hv, hentry⟩

theorem parsers_error (h : parsers rt (.list items) = .error f) :
    (∃ e, f = .config e) ∨ ∃ d, f = .defect d := by
  rw [parsers_list] at h
  split at h
  · exact .inl ⟨_, (Except.error.inj h).symm⟩
  · obtain ⟨i, v, -, hentry, -⟩ := zipIdx_eq_error_iff.mp h
    exact entry_error hentry

/-! ## Settings of the right kinds -/

/-- A value is written. -/
def Written (rt : Runtime) (v : Value) : Prop := ∃ t, rt.write v = .ok t

/-- A value is a text that is read as an expression or refused as one. -/
def Judged (rt : Runtime) (v : Value) : Prop :=
  ∃ t, v = .text t ∧ ∀ why, rt.read t = .error why → why.defect? = none

/-- A value that counts as given has items, each of which is written. -/
def Listed (rt : Runtime) (v : Value) : Prop :=
  v.truthy = true → ∃ items, parts? v = some items ∧ ∀ item ∈ items, Written rt item

/-- The settings of an entry are of the kinds they ought to be: what is written as a name, a
token, an ending or a glob can be written, closing tokens are texts or not there, and expressions
are texts that are not given up on. -/
structure WellTyped (rt : Runtime) (settings : Settings) : Prop where
  name : ∀ index, Written rt (nameValue settings index)
  preset : (Value.lookup "preset" settings).truthy = true →
    Written rt (Value.lookup "preset" settings)
  opening : ∀ items c, Value.lookup "comments" settings = .list items → .mapping c ∈ items →
    Written rt (openingValue c)
  closing : ∀ items c, Value.lookup "comments" settings = .list items → .mapping c ∈ items →
    Value.lookup "end" c = .null ∨ ∃ t, Value.lookup "end" c = .text t
  oracle : ∀ o start finish, Value.lookup "oracle" settings = .mapping o →
    Value.lookup? "start" o = some start → Value.lookup? "end" o = some finish →
    Judged rt start ∧ Judged rt finish
  extensions : Listed rt (Value.lookup "extensions" settings)
  globs : Listed rt (Value.lookup "globs" settings)

theorem written_text (rt : Runtime) (t : Text) : Written rt (.text t) := ⟨t, rt.write_text t⟩

theorem Written.not_error {why : WriteFault} (h : Written rt v) : rt.write v ≠ .error why := by
  obtain ⟨t, ht⟩ := h
  simp [ht]

theorem Listed.not_bad (listed : Listed rt v) (given : v.truthy = true) : ¬ Numeric v ∧
    ∀ items why, parts? v = some items → ¬ FirstFault rt.write items why := by
  obtain ⟨items, hparts, hwritten⟩ := listed given
  constructor
  · rintro (rfl | ⟨n, rfl⟩ | ⟨x, rfl⟩) <;> cases hparts
  · intro items' why hparts' hfault
    obtain rfl : items = items' := Option.some.inj (hparts.symm.trans hparts')
    obtain ⟨i, item, hitem, hwhy, -⟩ := hfault
    exact (hwritten item (List.mem_of_getElem? hitem)).not_error hwhy

theorem WellTyped.not_deepSyntax (typed : WellTyped rt settings) : ¬ DeepSyntax rt settings := by
  intro deepSyntax
  cases deepSyntax with
  | preset given _ deep => exact (typed.preset given).not_error deep
  | opening _ comments here _ deep =>
    exact (typed.opening _ _ comments (List.mem_of_getElem? here)).not_error deep

theorem WellTyped.not_badPattern (typed : WellTyped rt settings) :
    ¬ BadPattern rt (Value.lookup "oracle" settings) d := by
  intro bad
  cases bad with
  | noText mapping starts ends noText _ =>
    obtain ⟨⟨t, rfl, -⟩, -⟩ := typed.oracle _ _ _ mapping starts ends
    exact noText t rfl
  | start mapping starts ends unread defect =>
    obtain ⟨⟨t, ht, hjudged⟩, -⟩ := typed.oracle _ _ _ mapping starts ends
    obtain rfl := Value.text.inj ht
    simp [hjudged _ unread] at defect
  | finish mapping starts ends _ unread defect =>
    obtain ⟨-, t, ht, hjudged⟩ := typed.oracle _ _ _ mapping starts ends
    obtain rfl := Value.text.inj ht
    simp [hjudged _ unread] at defect

theorem WellTyped.listed (typed : WellTyped rt settings) (choice : Choice settings v d) :
    Listed rt v := by
  cases choice with
  | endings => exact typed.extensions
  | globs => exact typed.globs

theorem WellTyped.not_badFiles (typed : WellTyped rt settings) : ¬ BadFiles rt settings d := by
  intro bad
  cases bad with
  | noItems choice numeric => exact ((typed.listed choice).not_bad choice.given).1 numeric
  | item choice parts unwritten =>
    exact ((typed.listed choice).not_bad choice.given).2 _ _ parts unwritten

theorem WellTyped.not_misfit (typed : WellTyped rt settings) : ¬ Misfit rt index settings d := by
  intro misfit
  cases misfit with
  | name unwritten => exact (typed.name index).not_error unwritten
  | comments _ deep => exact typed.not_deepSyntax deep
  | oracle _ _ bad => exact typed.not_badPattern bad
  | files _ _ _ bad => exact typed.not_badFiles bad

theorem configured_usable {opening : Text} {closing : Value} {c : Comment}
    (h : Comment.configured opening closing = .ok c)
    (typed : closing = .null ∨ ∃ t, closing = .text t) : ∀ v, c.closing ≠ .unusable v := by
  intro v hunusable
  unfold Comment.configured at h
  split at h
  · cases h
  · rcases typed with rfl | ⟨t, rfl⟩
    · obtain rfl := Except.ok.inj h
      cases hunusable
    · by_cases ht : t = [] <;> simp [Closing.ofValue, ht, Except.map] at h
      obtain rfl := h
      cases hunusable

theorem WellTyped.comment_usable (typed : WellTyped rt settings) {described : List Value}
    {c : Comment} (hdescribed : Value.lookup "comments" settings = .list described)
    (hv : v ∈ described) (h : comment rt v = .ok c) : ∀ u, c.closing ≠ .unusable u := by
  obtain ⟨opening, closing, hconfigured, hclosing⟩ := comment_eq_ok h
  apply configured_usable hconfigured
  rcases hclosing with hnull | ⟨settings', rfl, rfl⟩
  · exact .inl hnull
  · exact typed.closing described _ hdescribed hv

theorem WellTyped.usable (typed : WellTyped rt settings) {l : NonemptyLexicon}
    (h : lexicon rt settings = .ok l) : l.1.Usable := by
  rcases lexicon_eq_ok h with ⟨p, hpreset⟩ | ⟨described, hdescribed, hcomments⟩
  · exact hpreset ▸ p.usable
  · intro c hc
    obtain ⟨v, hv, hcomment⟩ := mem_of_mapM hcomments hc
    exact typed.comment_usable hdescribed hv hcomment

theorem WellTyped.finish (typed : WellTyped rt settings) {o : PatternOracle}
    (h : Configuration.oracle rt (Value.lookup "oracle" settings) = .ok o) (v : Value) :
    o.finish ≠ .unusable v := by
  unfold Configuration.oracle at h
  split at h
  · exact Except.ok.inj h ▸ BuiltInOracle.finish_ne_unusable .bracket v
  · split at h
    · exact Except.ok.inj h ▸ BuiltInOracle.finish_ne_unusable _ v
    · cases h
  · next settings' hsettings =>
    split at h
    · next start finish hstart hfinish =>
      obtain ⟨-, t, rfl, -⟩ := typed.oracle settings' start finish hsettings hstart hfinish
      exact configured_finish (mapError_eq_ok_iff.mp h)
    · cases h
  · cases h

theorem WellTyped.not_hides (typed : WellTyped rt settings)
    (h : entry rt index (.mapping settings) = .ok e) : ¬ e.parser.Hides d := by
  obtain ⟨_, l, o, f, hsettings, hl, ho, hlexicon, horacle, -⟩ := entry_eq_ok h
  obtain rfl := Value.mapping.inj hsettings
  intro hides
  cases hides with
  | closing begins unusable =>
    exact typed.usable hl _ (hlexicon ▸ begins.mem) _ unusable
  | asked _ _ unanswered =>
    rw [horacle] at unanswered
    obtain ⟨-, -, v, hfinish⟩ := PatternOracle.classify_eq_error_iff.mp unanswered
    exact typed.finish ho v hfinish

theorem Complete.not_breaks (json : Value.areJson items = true) (complete : Complete rt items) :
    ¬ Breaks rt items d := by
  intro breaks
  have hdefect := (parsers_eq_defect_iff json).mpr breaks
  rcases complete with ⟨entries, hok, -⟩ | ⟨e, herror⟩
  · simp [hok] at hdefect
  · simp [herror] at hdefect

theorem Complete.not_hides (complete : Complete rt items) : ¬ Hides rt items d := by
  intro hides
  obtain ⟨_, hok, e, he, hhides⟩ := hides
  rcases complete with ⟨entries, hok', -, hcopes⟩ | ⟨e, herror⟩
  · obtain rfl := Except.ok.inj (hok'.symm.trans hok)
    exact Parser.total_iff.mp (hcopes e he).1 d hhides
  · simp [herror] at hok

theorem complete_of_fit (json : Value.areJson items = true) (unbroken : ∀ d, ¬ Breaks rt items d)
    (open' : ∀ d, ¬ Hides rt items d) : Complete rt items := by
  cases hparsers : parsers rt (.list items) with
  | ok entries =>
    refine .inl ⟨entries, hparsers, parsers_eq_ok hparsers,
      fun e he => ⟨?_, fun f _ path => ⟨_, rfl⟩⟩⟩
    exact Parser.total_iff.mpr fun d hides => open' d ⟨entries, hparsers, e, he, hides⟩
  | error f =>
    rcases parsers_error hparsers with ⟨e, rfl⟩ | ⟨d, rfl⟩
    · exact .inr ⟨e, hparsers⟩
    · exact absurd ((parsers_eq_defect_iff json).mp hparsers) (unbroken d)

/-- A list of plain data is answered by parsers that cope with everything, or by what is wrong
with it, exactly when it does not break at a setting and no parser hides one. It is where all
settings are of the kinds they ought to be. -/
theorem complete_iff (rt : Runtime) {items : List Value} (json : Value.areJson items = true) :
    (Complete rt items ↔ (∀ d, ¬ Breaks rt items d) ∧ ∀ d, ¬ Hides rt items d) ∧
      ((∀ settings, .mapping settings ∈ items → WellTyped rt settings) → Complete rt items) := by
  constructor
  · constructor
    · intro complete
      exact ⟨fun d => complete.not_breaks json, fun d => complete.not_hides⟩
    · intro fit
      exact complete_of_fit json fit.1 fit.2
  · intro typed
    apply complete_of_fit json
    · intro d breaks
      obtain ⟨i, settings, hi, misfit, -⟩ := breaks
      exact (typed settings (List.mem_of_getElem? hi)).not_misfit misfit
    · intro d hides
      obtain ⟨entries, hok, e, he, hhides⟩ := hides
      obtain ⟨i, settings, hi, hentry⟩ := (parsers_eq_ok hok).exists_settings he
      exact (typed settings (List.mem_of_getElem? hi)).not_hides hentry hhides

/-- Two entries: a preset, and one for markup with a comment, two expressions and a glob. -/
def markupEntries : List Value :=
  [.mapping [(.text "preset".toList, .text "c-like".toList)],
    .mapping [(.text "comments".toList, .list [.mapping [
        (.text "start".toList, .text "<!--".toList),
        (.text "end".toList, .text "-->".toList)]]),
      (.text "oracle".toList, .mapping [(.text "start".toList, .text "BEGIN (?P<id>x)".toList),
        (.text "end".toList, .text "END".toList)]),
      (.text "globs".toList, .list [.text "*.xml".toList])]]

theorem complete_iff_markupEntries :
    Value.areJson markupEntries = true ∧
      (∀ settings, .mapping settings ∈ markupEntries → WellTyped .standard settings) ∧
      Complete .standard markupEntries := by
  have typed : ∀ settings, .mapping settings ∈ markupEntries → WellTyped .standard settings := by
    intro settings hmem
    simp only [markupEntries, List.mem_cons, Value.mapping.injEq, List.not_mem_nil,
      or_false] at hmem
    rcases hmem with rfl | rfl
    · constructor
      case name => exact fun _ => written_text _ _
      case preset => exact fun _ => written_text _ _
      all_goals simp [Value.lookup, Value.lookup?, Listed, Value.truthy]
    · constructor
      case name => exact fun _ => written_text _ _
      case preset => exact nofun
      case opening =>
        intro described c hdescribed hc
        obtain rfl := Value.list.inj hdescribed
        obtain rfl := Value.mapping.inj (List.mem_singleton.mp hc)
        exact written_text _ _
      case closing =>
        intro described c hdescribed hc
        obtain rfl := Value.list.inj hdescribed
        obtain rfl := Value.mapping.inj (List.mem_singleton.mp hc)
        exact .inr ⟨_, rfl⟩
      case oracle =>
        intro o start finish ho hstart hfinish
        obtain rfl := Value.mapping.inj ho
        obtain rfl := Option.some.inj hstart
        obtain rfl := Option.some.inj hfinish
        exact ⟨⟨_, rfl, nofun⟩, _, rfl, nofun⟩
      case extensions => exact nofun
      case globs =>
        intro _
        refine ⟨_, rfl, ?_⟩
        intro item hitem
        exact List.mem_singleton.mp hitem ▸ written_text _ _
  have json : Value.areJson markupEntries = true := rfl
  exact ⟨json, typed, (complete_iff .standard json).2 typed⟩

/-- An entry whose start expression is a number. -/
def numberedEntry : Value :=
  .mapping [(.text "preset".toList, .text "c-like".toList),
    (.text "oracle".toList, .mapping [(.text "start".toList, .int 5),
      (.text "end".toList, .text "END".toList)])]

/-- Not every list of plain data is answered by parsers or by what is wrong with it. -/
theorem not_forall_complete :
    ¬ ∀ items, Value.areJson items = true → Complete .standard items := by
  intro complete
  have hdefect : parsers .standard (.list [numberedEntry]) = .error (.defect .startPattern) := rfl
  rcases complete [numberedEntry] rfl with ⟨entries, hok, -⟩ | ⟨e, herror⟩
  · simp [hdefect] at hok
  · simp [hdefect] at herror

end Configuration
end ProtectedRegions
