import ProtectedRegions.Proofs.Advancing
import ProtectedRegions.Proofs.Restoring
import ProtectedRegions.Proofs.Tiling

/-
  Chains — what the later parsers of a chain do to the work of the earlier ones

  Every parser of a chain reads the text that the one before it left, with the
  restored bodies in it. It sees no difference between these and anything else: a
  marker of its own in a restored body, or around it, is a marker. So a region that
  was restored stays as long as no later parser puts another body where that region,
  its markers included, stands.

  A merge is looked at as a rewriting (`Text.Rewriting`): the text in pieces, each
  beside what is put in its place. Outside of the pieces that change, everything is
  found again, moved by as much as the pieces before it have grown.

  What is proved:
    1. `merge_self` — a chain that has nothing to restore comes to a result, and that
       is the text it was given.
    2. `Rewriting.take_drop_after` — a rewriting keeps what no changed piece meets.
    3. `Links.slice` — so does a chain, link after link.
    4. `restored_stays` — a region is in the final text as the parser left it, unless
       a later one puts another body where it stands, and then up to the first that does.
    5. `not_forall_restored_stays` — a later parser of another syntax that does.
-/

namespace ProtectedRegions

/-! ## Nothing to restore -/

/-- The body of an id is that of the first region that has it. -/
theorem Document.body?_eq_regions (d : Document) (id : Text) :
    d.body? id = (d.regions.find? fun r => r.segment.id = some id).map (·.segment.content) := by
  rw [body?_eq, regions, List.find?_filter]
  congr 2
  funext q
  cases hid : q.segment.id <;> simp [Segment.isRegion, hid]

theorem Document.exists_region {d : Document} {s : Segment} (hs : s ∈ d.segments) {id : Text}
    (hid : s.id = some id) : ∃ q ∈ d.regions, q.segment = s := by
  obtain ⟨q, hq, rfl⟩ := List.mem_map.mp hs
  exact ⟨q, List.mem_filter.mpr ⟨hq, by simp [Segment.isRegion, hid]⟩, rfl⟩

namespace Support

variable {s : Support} {w : Workspace} {pool : Pool} {path contents t u : Text} {p : Parser}
  {parsers : List Parser}

/-- A file is at the path. -/
def HasFile (w : Workspace) (path : Text) : Prop :=
  w.exists? (Path.ofText path) = true ∧ w.isDirectory (Path.ofText path) = false

/-- The parsers that are for the path have nothing to restore in the contents. -/
structure NothingToRestore (s : Support) (w : Workspace) (path contents : Text) : Prop where
  /-- Each of them can parse the contents. -/
  parses : ∀ p ∈ parsersFor s.registrations path, ∃ d, p.parse contents = .ok d
  /-- Each inverse one can parse the file at the path, if there is one. -/
  previous : HasFile w path → ∀ p ∈ parsersFor s.registrations path, p.inverse = true →
    ∃ t d, w.readText path = .ok t ∧ p.parse t = .ok d
  /-- The pool has no other body for a region of a forward one. -/
  pooled : ∀ p ∈ parsersFor s.registrations path, p.inverse = false → ∀ d,
    p.parse contents = .ok d → ∀ q ∈ d.regions, ∀ id, q.segment.id = some id → ∀ body,
      s.pool.body? id = some body → body = q.segment.content
  /-- The first region of its id in the file at the path has no other body than a region
  of an inverse one. -/
  filed : HasFile w path → ∀ p ∈ parsersFor s.registrations path, p.inverse = true → ∀ d,
    p.parse contents = .ok d → ∀ t before, w.readText path = .ok t → p.parse t = .ok before →
      ∀ q ∈ d.regions, ∀ id, q.segment.id = some id → ∀ first,
        (before.regions.find? fun r => r.segment.id = some id) = some first →
          first.segment.content = q.segment.content

theorem known_of_forward (hforward : p.inverse = false) :
    known w pool path p = .ok pool.body? := by
  rw [known, hforward]
  rfl

/-- An inverse parser knows the bodies of the file at the path, the first of each id. -/
theorem known_of_inverse (hinverse : p.inverse = true) {t : Text} {before : Document}
    (hfile : HasFile w path) (ht : w.readText path = .ok t) (hbefore : p.parse t = .ok before) :
    known w pool path p = .ok before.body? := by
  have hsome : (w.exists? (Path.ofText path) && !w.isDirectory (Path.ofText path)) = true := by
    rw [hfile.1, hfile.2]
    rfl
  rw [known, if_pos hinverse, Support.previous, if_pos hsome, ht]
  simp [hbefore, Except.mapError, Logged.silent, bind, Except.bind, pure, Except.pure, Except.map]

theorem known_of_no_file (hinverse : p.inverse = true) (hfile : ¬ HasFile w path) :
    known w pool path p = .ok fun _ => none := by
  have hnone : ¬ (w.exists? (Path.ofText path) && !w.isDirectory (Path.ofText path)) = true := by
    simpa [HasFile] using hfile
  rw [known, if_pos hinverse, Support.previous, if_neg hnone]
  rfl

/-- A parser that has nothing to restore knows no body but the one that is there. -/
theorem NothingToRestore.knows (h : s.NothingToRestore w path contents)
    (hp : p ∈ parsersFor s.registrations path) {d : Document} (hd : p.parse contents = .ok d) :
    ∃ bodies, known w s.pool path p = .ok bodies ∧ ∀ x ∈ d.segments, ∀ id, x.id = some id →
      ∀ body, bodies id = some body → body = x.content := by
  cases hinverse : p.inverse with
  | false =>
    refine ⟨s.pool.body?, known_of_forward hinverse, fun x hx id hid body hbody => ?_⟩
    obtain ⟨q, hq, rfl⟩ := Document.exists_region hx hid
    exact h.pooled p hp hinverse d hd q hq id hid body hbody
  | true =>
    by_cases hfile : HasFile w path
    · obtain ⟨t, before, ht, hbefore⟩ := h.previous hfile p hp hinverse
      refine ⟨_, known_of_inverse hinverse hfile ht hbefore, fun x hx id hid body hbody => ?_⟩
      obtain ⟨q, hq, rfl⟩ := Document.exists_region hx hid
      rw [Document.body?_eq_regions, Option.map_eq_some_iff] at hbody
      obtain ⟨first, hfirst, rfl⟩ := hbody
      exact h.filed hfile p hp hinverse d hd t before ht hbefore q hq id hid first hfirst
    · refine ⟨_, known_of_no_file hinverse hfile, fun x _ id _ body hbody => ?_⟩
      cases hbody

/-- A chain in which no parser knows another body than the one that is there goes through. -/
theorem restoreAll_eq_self (h : ∀ p ∈ parsers, ∃ d bodies, p.parse t = .ok d ∧
      known w pool path p = .ok bodies ∧ ∀ x ∈ d.segments, ∀ id, x.id = some id →
        ∀ body, bodies id = some body → body = x.content) :
    (restoreAll w pool path parsers t).result = .ok t := by
  induction parsers with
  | nil => rfl
  | cons p parsers ih =>
    obtain ⟨d, bodies, hd, hbodies, hown⟩ := h p List.mem_cons_self
    refine restoreAll_cons_eq_ok_iff.mpr ⟨d, bodies, hd, hbodies, ?_⟩
    rw [Document.merge_text_of_own hown, Parser.text_of_parse hd]
    exact ih fun q hq => h q (List.mem_cons_of_mem _ hq)

/-- Contents in which there is nothing to restore come back as they are. -/
theorem merge_self (h : s.NothingToRestore w path contents) :
    (s.merge w path contents).result = .ok contents := by
  refine restoreAll_eq_self fun p hp => ?_
  obtain ⟨d, hd⟩ := h.parses p hp
  obtain ⟨bodies, hbodies, hown⟩ := h.knows hp hd
  exact ⟨d, bodies, hd, hbodies, hown⟩

end Support

/-! ## Rewriting a text piece by piece -/

namespace Text

theorem slice_add (t : Text) (start length : Nat) :
    t.slice start (start + length) = (t.drop start).take length := by
  rw [slice, List.drop_take, Nat.add_sub_cancel_left]

/-- A text in pieces, each with what is put in its place. -/
abbrev Rewriting := List (Text × Text)

namespace Rewriting

def before (r : Rewriting) : Text := r.flatMap (·.1)

def after (r : Rewriting) : Text := r.flatMap (·.2)

/-- No piece that changes meets the places from `start` to `stop`: it ends there or before,
or begins there or behind. The first piece begins at a given offset. -/
def Spares (start stop : Nat) : Nat → Rewriting → Prop
  | _, [] => True
  | offset, (old, new) :: r => (old = new ∨ offset + old.length ≤ start ∨ stop ≤ offset) ∧
      Spares start stop (offset + old.length) r

/-- Where a position comes to stand. -/
def carried : Rewriting → Nat → Nat
  | [], position => position
  | (old, new) :: r, position =>
    if old.length ≤ position then new.length + carried r (position - old.length) else position

variable {r : Rewriting} {start stop offset : Nat}

theorem spares_append {r' : Rewriting} :
    Spares start stop offset (r ++ r') ↔
      Spares start stop offset r ∧ Spares start stop (offset + r.before.length) r' := by
  induction r generalizing offset with
  | nil => simp [Spares, before]
  | cons piece r ih =>
    obtain ⟨old, new⟩ := piece
    simp only [List.cons_append, Spares, ih, before, List.flatMap_cons, List.length_append,
      Nat.add_assoc, and_assoc]

theorem take_after (h : r.Spares start stop offset) (hstart : start < offset) :
    r.after.take (stop - offset) = r.before.take (stop - offset) := by
  induction r generalizing offset with
  | nil => rfl
  | cons piece r ih =>
    obtain ⟨old, new⟩ := piece
    obtain ⟨hpiece, hrest⟩ := h
    have hnext := ih hrest (Nat.lt_of_lt_of_le hstart (Nat.le_add_right _ _))
    rcases hpiece with rfl | hends | hbegins
    · simp only [after, before, List.flatMap_cons, List.take_append] at hnext ⊢
      rw [Nat.sub_sub, hnext]
    · omega
    · rw [Nat.sub_eq_zero_of_le hbegins, List.take_zero, List.take_zero]

/-- What no changed piece meets is found again where it is carried to. -/
theorem take_drop_after (h : r.Spares start stop offset) (hoffset : offset ≤ start)
    (hlt : start < stop) :
    (r.after.drop (r.carried (start - offset))).take (stop - start) =
      (r.before.drop (start - offset)).take (stop - start) := by
  induction r generalizing offset with
  | nil => rfl
  | cons piece r ih =>
    obtain ⟨old, new⟩ := piece
    obtain ⟨hpiece, hrest⟩ := h
    simp only [after, before, List.flatMap_cons, carried]
    by_cases hbehind : old.length ≤ start - offset
    · -- the piece is passed, and the span lies in the rest
      have hnext := ih hrest (by omega)
      rw [if_pos hbehind, List.drop_append, List.drop_append, List.drop_eq_nil_of_le hbehind,
        List.drop_eq_nil_of_le (Nat.le_add_right _ _), Nat.add_sub_cancel_left, List.nil_append,
        List.nil_append, Nat.sub_sub]
      exact hnext
    · -- the span begins in the piece, which therefore does not change
      have hsame : old = new := by
        rcases hpiece with hsame | hends | hbegins
        · exact hsame
        · omega
        · omega
      subst hsame
      have hnext := take_after hrest (by omega)
      have hleft : stop - start - (old.drop (start - offset)).length =
          stop - (offset + old.length) := by
        rw [List.length_drop]
        omega
      rw [if_neg hbehind, List.drop_append_of_le_length (by omega),
        List.drop_append_of_le_length (by omega), List.take_append, List.take_append, hleft]
      exact congrArg _ hnext

end Rewriting
end Text

/-! ## Merging as a rewriting -/

namespace Segment

/-- The body of the segment is replaced by another one. -/
def Rewritten (known : Bodies) (s : Segment) : Prop :=
  ∃ id body, s.id = some id ∧ known id = some body ∧ body ≠ s.content

theorem rewritten_iff {known : Bodies} {s : Segment} :
    s.Rewritten known ↔ ((s.id.bind known).any fun body => body != s.content) = true := by
  unfold Rewritten
  cases hid : s.id with
  | none => simp
  | some id => cases hbody : known id <;> simp [hbody]

instance (known : Bodies) (s : Segment) : Decidable (s.Rewritten known) :=
  decidable_of_iff _ rewritten_iff.symm

theorem restore_content_of_not_rewritten {known : Bodies} {s : Segment} (h : ¬ s.Rewritten known) :
    (s.restore known).content = s.content := by
  unfold restore
  cases hbody : s.id.bind known with
  | none => rfl
  | some body =>
    obtain ⟨id, hid, hknown⟩ := Option.bind_eq_some_iff.mp hbody
    by_contra hne
    exact h ⟨id, body, hid, hknown, hne⟩

/-- The markers stay, and the body is what it is restored to. -/
def rewriting (known : Bodies) (s : Segment) : Text.Rewriting :=
  [(s.startMarker, s.startMarker), (s.content, (s.restore known).content),
    (s.endMarker, s.endMarker)]

theorem before_rewriting (known : Bodies) (s : Segment) : (s.rewriting known).before = s.text := by
  simp [rewriting, Text.Rewriting.before, text]

theorem after_rewriting (known : Bodies) (s : Segment) :
    (s.rewriting known).after = (s.restore known).text := by
  simp [rewriting, Text.Rewriting.after, text]

end Segment

namespace Placed

def bodyStart (q : Placed) : Nat := q.start + q.segment.startMarker.length

def bodyStop (q : Placed) : Nat := q.bodyStart + q.segment.content.length

end Placed

namespace Document

variable {d : Document} {known : Bodies} {start length : Nat}

/-- No body that the known ones replace meets the places from `start` to `stop`. -/
def Spares (d : Document) (known : Bodies) (start stop : Nat) : Prop :=
  ∀ q ∈ d.placed, q.segment.Rewritten known → q.bodyStop ≤ start ∨ stop ≤ q.bodyStart

instance (d : Document) (known : Bodies) (start stop : Nat) :
    Decidable (d.Spares known start stop) :=
  inferInstanceAs (Decidable (∀ q ∈ d.placed, _ → _ ∨ _))

/-- What a merge does to the text of a document. -/
def rewriting (d : Document) (known : Bodies) : Text.Rewriting :=
  d.segments.flatMap (·.rewriting known)

theorem before_rewriting (d : Document) (known : Bodies) : (d.rewriting known).before = d.text := by
  unfold rewriting Text.Rewriting.before text
  rw [List.flatMap_assoc]
  exact List.flatMap_congr fun s _ => Segment.before_rewriting known s

theorem after_rewriting (d : Document) (known : Bodies) :
    (d.rewriting known).after = (d.merge known).text := by
  unfold rewriting Text.Rewriting.after
  rw [List.flatMap_assoc, merge, text_ofSegments, List.flatMap_map]
  exact List.flatMap_congr fun s _ => Segment.after_rewriting known s

theorem stop_of_mem_place {segments : List Segment} {offset : Nat} {q : Placed}
    (hq : q ∈ place offset segments) : q.stop = q.start + q.segment.text.length := by
  induction segments generalizing offset with
  | nil => simp [place] at hq
  | cons s rest ih =>
    rcases List.mem_cons.mp hq with rfl | hq
    · rfl
    · exact ih hq

theorem spares_place {segments : List Segment} {offset start stop : Nat}
    (h : ∀ q ∈ place offset segments, q.segment.Rewritten known →
      q.bodyStop ≤ start ∨ stop ≤ q.bodyStart) :
    Text.Rewriting.Spares start stop offset (segments.flatMap (·.rewriting known)) := by
  induction segments generalizing offset with
  | nil => trivial
  | cons s rest ih =>
    rw [place] at h
    have hbody : s.content = (s.restore known).content ∨
        offset + s.startMarker.length + s.content.length ≤ start ∨
          stop ≤ offset + s.startMarker.length := by
      by_cases hrewritten : s.Rewritten known
      · exact .inr (h _ List.mem_cons_self hrewritten)
      · exact .inl (Segment.restore_content_of_not_rewritten hrewritten).symm
    rw [List.flatMap_cons, Text.Rewriting.spares_append, Segment.before_rewriting]
    exact ⟨⟨.inl rfl, hbody, .inl rfl, trivial⟩, ih fun q hq => h q (List.mem_cons_of_mem _ hq)⟩

/-- Where a position of the text comes to stand when the known bodies are put in. -/
def carried (d : Document) (known : Bodies) (position : Nat) : Nat :=
  (d.rewriting known).carried position

theorem slice_merge {segments : List Segment} (hd : d = .ofSegments segments)
    (h : d.Spares known start (start + length)) :
    (d.merge known).text.slice (d.carried known start) (d.carried known start + length) =
      d.text.slice start (start + length) := by
  subst hd
  rw [Text.slice_add, Text.slice_add]
  cases length with
  | zero => rw [List.take_zero, List.take_zero]
  | succ n =>
    have hspares := spares_place h
    rw [← segments_ofSegments segments] at hspares
    have hkept := Text.Rewriting.take_drop_after hspares (Nat.zero_le _) (by omega)
    rw [Nat.sub_zero, Nat.add_sub_cancel_left] at hkept
    rw [← after_rewriting, ← before_rewriting _ known]
    exact hkept

end Document

namespace Support

variable {s : Support} {w : Workspace} {pool : Pool} {path contents t u : Text} {p : Parser}
  {parsers : List Parser}

/-! ## The links of a chain -/

/-- What one parser of a chain read, and the bodies that it knew. -/
structure Link where
  document : Document
  bodies : Bodies

/-- What the parser made of it. -/
def Link.merged (l : Link) : Document := l.document.merge l.bodies

/-- The links of a chain from a text to a text: each parser reads what the one before it
left. -/
inductive Links (w : Workspace) (pool : Pool) (path : Text) :
    List Parser → Text → List Link → Text → Prop where
  | nil (t : Text) : Links w pool path [] t [] t
  | cons {p : Parser} {parsers : List Parser} {t u : Text} {l : Link} {links : List Link}
      (parses : p.parse t = .ok l.document) (knows : known w pool path p = .ok l.bodies)
      (tail : Links w pool path parsers l.merged.text links u) :
      Links w pool path (p :: parsers) t (l :: links) u

theorem restoreAll_eq_ok_iff : (restoreAll w pool path parsers t).result = .ok u ↔
    ∃ links, Links w pool path parsers t links u := by
  induction parsers generalizing t with
  | nil =>
    constructor
    · intro h
      obtain rfl := Except.ok.inj h
      exact ⟨[], .nil t⟩
    · rintro ⟨links, h⟩
      cases h
      rfl
  | cons p parsers ih =>
    rw [restoreAll_cons_eq_ok_iff]
    constructor
    · rintro ⟨d, bodies, hd, hbodies, hrest⟩
      obtain ⟨links, hlinks⟩ := ih.mp hrest
      exact ⟨⟨d, bodies⟩ :: links, .cons hd hbodies hlinks⟩
    · rintro ⟨links, h⟩
      cases h with
      | cons parses knows tail => exact ⟨_, _, parses, knows, ih.mpr ⟨_, tail⟩⟩

/-- Where a position comes to stand behind the links. -/
def carried : List Link → Nat → Nat
  | [], position => position
  | l :: links, position => carried links (l.document.carried l.bodies position)

/-- None of the parsers puts another body where a piece of a given length stands, wherever
the ones before it have moved that piece to. -/
def Untouched : List Link → Nat → Nat → Prop
  | [], _, _ => True
  | l :: links, start, length => l.document.Spares l.bodies start (start + length) ∧
      Untouched links (l.document.carried l.bodies start) length

instance decidableUntouched : (links : List Link) → (start length : Nat) →
    Decidable (Untouched links start length)
  | [], _, _ => isTrue trivial
  | l :: links, start, length =>
    have := decidableUntouched links (l.document.carried l.bodies start) length
    inferInstanceAs (Decidable (_ ∧ _))

theorem slice_link {l : Link} {start length : Nat}
    (parses : p.parse t = .ok l.document)
    (h : l.document.Spares l.bodies start (start + length)) :
    l.merged.text.slice (l.document.carried l.bodies start)
        (l.document.carried l.bodies start + length) = t.slice start (start + length) := by
  obtain ⟨segments, -, hsegments⟩ := Parser.parse_eq_ok_iff.mp parses
  rw [Link.merged, Document.slice_merge hsegments h, Parser.text_of_parse parses]

theorem Links.slice {links : List Link} (h : Links w pool path parsers t links u)
    {start length : Nat} (untouched : Untouched links start length) :
    u.slice (carried links start) (carried links start + length) =
      t.slice start (start + length) := by
  induction h generalizing start with
  | nil => rfl
  | @cons p parsers t u l links parses knows tail ih =>
    obtain ⟨hspares, hrest⟩ := untouched
    calc u.slice (carried (l :: links) start) (carried (l :: links) start + length)
        = l.merged.text.slice (l.document.carried l.bodies start)
            (l.document.carried l.bodies start + length) := ih hrest
      _ = t.slice start (start + length) := slice_link parses hspares

/-- The parser puts another body where a piece stands. -/
def Link.Disturbs (l : Link) (start stop : Nat) : Prop :=
  ∃ r ∈ l.document.regions, r.segment.Rewritten l.bodies ∧ start < r.bodyStop ∧ r.bodyStart < stop

theorem Link.disturbs_of_not_spares {l : Link} {start stop : Nat}
    (h : ¬ l.document.Spares l.bodies start stop) : l.Disturbs start stop := by
  by_contra hquiet
  refine h fun r hr hrewritten => ?_
  by_contra hmeets
  have ⟨id, _, hid, _, _⟩ := hrewritten
  have hregion : r ∈ l.document.regions :=
    List.mem_filter.mpr ⟨hr, by simp [Segment.isRegion, hid]⟩
  exact hquiet ⟨r, hregion, hrewritten, by omega, by omega⟩

/-- A piece that is touched is found as it was up to the first parser that touches it. -/
theorem Links.exists_disturbing {links : List Link} (h : Links w pool path parsers t links u)
    {start length : Nat} (touched : ¬ Untouched links start length) :
    ∃ between next behind, links = between ++ next :: behind ∧ Untouched between start length ∧
      next.document.text.slice (carried between start) (carried between start + length) =
        t.slice start (start + length) ∧
      next.Disturbs (carried between start) (carried between start + length) := by
  induction h generalizing start with
  | nil => exact absurd trivial touched
  | @cons p parsers t u l links parses knows tail ih =>
    by_cases hspares : l.document.Spares l.bodies start (start + length)
    · obtain ⟨between, next, behind, rfl, huntouched, hslice, hdisturbs⟩ :=
        ih fun hrest => touched ⟨hspares, hrest⟩
      refine ⟨l :: between, next, behind, rfl, ⟨hspares, huntouched⟩, ?_, hdisturbs⟩
      exact hslice.trans (slice_link parses hspares)
    · refine ⟨[], l, links, rfl, trivial, ?_, Link.disturbs_of_not_spares hspares⟩
      rw [Parser.text_of_parse parses]
      rfl

theorem Links.behind {links : List Link} (h : Links w pool path parsers t links u)
    {before later : List Link} {l : Link} (hlinks : links = before ++ l :: later) :
    ∃ parsers', Links w pool path parsers' l.merged.text later u := by
  induction h generalizing before with
  | nil => simp at hlinks
  | @cons p parsers t u m links parses knows tail ih =>
    cases before with
    | nil =>
      obtain ⟨rfl, rfl⟩ := List.cons.inj hlinks
      exact ⟨parsers, tail⟩
    | cons m' before => exact ih (List.cons.inj hlinks).2

theorem slice_region {l : Link} {q : Placed} (hq : q ∈ l.merged.regions) :
    l.merged.text.slice q.start (q.start + q.segment.text.length) = q.segment.text := by
  obtain ⟨hplaced, -⟩ := List.mem_filter.mp hq
  have hslice := Document.slice_place [] [] hplaced
  rw [Document.stop_of_mem_place hplaced, List.nil_append, List.append_nil] at hslice
  rw [Link.merged, Document.merge, Document.text_ofSegments]
  exact hslice

/-- A merge comes to a text through the links of a chain. Each region that one of its parsers
leaves, restored or not, is in that text with its body between the same markers, if no later
parser puts another body where it stands. If one does, the region is there up to the first
that does. -/
theorem restored_stays (s : Support) (w : Workspace) (path contents u : Text) :
    ((s.merge w path contents).result = .ok u ↔
      ∃ links, Links w s.pool path (parsersFor s.registrations path) contents links u) ∧
    ∀ links, Links w s.pool path (parsersFor s.registrations path) contents links u →
      ∀ before l later, links = before ++ l :: later → ∀ q ∈ l.merged.regions,
        (Untouched later q.start q.segment.text.length →
          u.slice (carried later q.start) (carried later q.start + q.segment.text.length) =
            q.segment.startMarker ++ q.segment.content ++ q.segment.endMarker) ∧
        (¬ Untouched later q.start q.segment.text.length →
          ∃ between next behind, later = between ++ next :: behind ∧
            Untouched between q.start q.segment.text.length ∧
            next.document.text.slice (carried between q.start)
              (carried between q.start + q.segment.text.length) = q.segment.text ∧
            next.Disturbs (carried between q.start)
              (carried between q.start + q.segment.text.length)) := by
  refine ⟨restoreAll_eq_ok_iff, fun links hlinks before l later hsplit q hq => ?_⟩
  obtain ⟨parsers', hlater⟩ := hlinks.behind hsplit
  have hslice := slice_region hq
  refine ⟨fun untouched => (hlater.slice untouched).trans hslice, fun touched => ?_⟩
  obtain ⟨between, next, behind, hbehind, huntouched, hfound, hdisturbs⟩ :=
    hlater.exists_disturbing touched
  exact ⟨between, next, behind, hbehind, huntouched, hfound.trans hslice, hdisturbs⟩

/-! ## Two syntaxes in one file -/

/-- A parser of slashes and stars, with the bodies of the pool. -/
def slashParser : Parser := .ofPreset .cLike .default false

/-- A parser of hash signs, with the bodies of the file at the path. -/
def hashParser : Parser := .ofPreset .hash .default true

def slashRegion (body : Text) : Segment :=
  .region ['A'] "//[[region:A]]\n".toList body "//[[end]]\n".toList

def hashRegion (body : Text) : Segment :=
  .region ['H'] "#[[region:H]]\n".toList body "#[[end]]\n".toList

/-- A region of either syntax, one behind the other. -/
def sideBySide (a h : Text) : Text := (slashRegion a).text ++ (hashRegion h).text

/-- The two regions in a file that is there. -/
def sideBySideTree : Workspace :=
  ⟨[([['o']], .directory), ([['o'], ['a']], .file (Text.encode (sideBySide ['x'] ['y'])))],
    by decide, [], [], none⟩

/-- Both parsers, for all files, with the region of the first in the pool. -/
def bothParsers : Support :=
  ⟨[⟨.all, slashParser⟩, ⟨.all, hashParser⟩],
    ⟨[(['A'], slashRegion ['x'])], [(['A'], some "o/a".toList)], true⟩⟩

theorem mem_regions_slash {body behind : Text} {q : Placed}
    (hq : q ∈ (Document.ofSegments [slashRegion body, .plain behind]).regions) :
    q.segment = slashRegion body := List.mem_singleton.mp (List.mem_map_of_mem hq)

theorem mem_regions_hash {before body : Text} {q : Placed}
    (hq : q ∈ (Document.ofSegments [.plain before, hashRegion body]).regions) :
    q.segment = hashRegion body := List.mem_singleton.mp (List.mem_map_of_mem hq)

/-- The file as it stands has nothing to restore, from the pool or from itself. -/
theorem merge_self_sideBySide :
    bothParsers.NothingToRestore sideBySideTree "o/a".toList (sideBySide ['x'] ['y']) ∧
      (bothParsers.merge sideBySideTree "o/a".toList (sideBySide ['x'] ['y'])).result =
        .ok (sideBySide ['x'] ['y']) := by
  have hslash : slashParser.parse (sideBySide ['x'] ['y']) =
      .ok (.ofSegments [slashRegion ['x'], .plain (hashRegion ['y']).text]) := by decide +kernel
  have hhash : hashParser.parse (sideBySide ['x'] ['y']) =
      .ok (.ofSegments [.plain (slashRegion ['x']).text, hashRegion ['y']]) := by decide +kernel
  have hread : sideBySideTree.readText "o/a".toList = .ok (sideBySide ['x'] ['y']) := by
    decide +kernel
  have hparsers : ∀ p ∈ parsersFor bothParsers.registrations "o/a".toList,
      p = slashParser ∨ p = hashParser := by
    intro p hp
    have hp : p ∈ [slashParser, hashParser] := hp
    simpa using hp
  have hnothing :
      bothParsers.NothingToRestore sideBySideTree "o/a".toList (sideBySide ['x'] ['y']) := by
    refine ⟨fun p hp => ?_, fun _ p hp hinverse => ?_,
      fun p hp hforward d hd q hq id hid body => ?_,
      fun _ p hp hinverse d hd t before ht hbefore q hq id hid first hfirst => ?_⟩
    · rcases hparsers p hp with rfl | rfl
      · exact ⟨_, hslash⟩
      · exact ⟨_, hhash⟩
    · rcases hparsers p hp with rfl | rfl
      · cases hinverse
      · exact ⟨_, _, hread, hhash⟩
    · rcases hparsers p hp with rfl | rfl
      · obtain rfl := Except.ok.inj (hslash.symm.trans hd)
        rw [mem_regions_slash hq] at hid ⊢
        obtain rfl : ['A'] = id := Option.some.inj hid
        exact fun hbody => (Option.some.inj hbody).symm
      · cases hforward
    · rcases hparsers p hp with rfl | rfl
      · cases hinverse
      · obtain rfl := Except.ok.inj (hread.symm.trans ht)
        obtain rfl := Except.ok.inj (hhash.symm.trans hd)
        obtain rfl := Except.ok.inj (hhash.symm.trans hbefore)
        rw [mem_regions_hash hq, mem_regions_hash (List.mem_of_find?_eq_some hfirst)]
  exact ⟨hnothing, merge_self hnothing⟩

/-- In newly generated text the first parser puts its body in. The second one, which puts a
body in behind that region, leaves it where it is. -/
theorem restored_stays_sideBySide :
    (bothParsers.merge sideBySideTree "o/a".toList (sideBySide ['u'] ['v'])).result =
        .ok (sideBySide ['x'] ['y']) ∧
      (sideBySide ['x'] ['y']).slice 0 26 = (slashRegion ['x']).text := by
  have hslash : slashParser.parse (sideBySide ['u'] ['v']) =
      .ok (.ofSegments [slashRegion ['u'], .plain (hashRegion ['v']).text]) := by decide +kernel
  have hhash : hashParser.parse (sideBySide ['x'] ['v']) =
      .ok (.ofSegments [.plain (slashRegion ['x']).text, hashRegion ['v']]) := by decide +kernel
  have hold : hashParser.parse (sideBySide ['x'] ['y']) =
      .ok (.ofSegments [.plain (slashRegion ['x']).text, hashRegion ['y']]) := by decide +kernel
  have hread : sideBySideTree.readText "o/a".toList = .ok (sideBySide ['x'] ['y']) := by
    decide +kernel
  have hfile : HasFile sideBySideTree "o/a".toList := by constructor <;> decide +kernel
  obtain ⟨hiff, hall⟩ := restored_stays bothParsers sideBySideTree "o/a".toList
    (sideBySide ['u'] ['v']) (sideBySide ['x'] ['y'])
  have hlinks : Links sideBySideTree bothParsers.pool "o/a".toList [slashParser, hashParser]
      (sideBySide ['u'] ['v'])
      [⟨.ofSegments [slashRegion ['u'], .plain (hashRegion ['v']).text], bothParsers.pool.body?⟩,
        ⟨.ofSegments [.plain (slashRegion ['x']).text, hashRegion ['v']],
          (Document.ofSegments [.plain (slashRegion ['x']).text, hashRegion ['y']]).body?⟩]
      (sideBySide ['x'] ['y']) :=
    .cons hslash (known_of_forward rfl)
      (.cons hhash (known_of_inverse rfl hfile hread hold) (.nil _))
  have hstays := hall _ hlinks [] _ _ rfl ⟨slashRegion ['x'], 0, 26⟩ (by decide +kernel)
  exact ⟨hiff.mpr ⟨_, hlinks⟩, hstays.1 (by decide +kernel)⟩

/-! ## One syntax in another -/

/-- What was read is a region with hash signs in a region with slashes. In the target there is
another body for the inner one. -/
def innerElsewhere : Workspace :=
  ⟨[([['p']], .directory),
    ([['p'], ['a']], .file (Text.encode (slashRegion (hashRegion ['x', '\n']).text).text)),
    ([['o']], .directory),
    ([['o'], ['a']], .file (Text.encode (hashRegion ['y', '\n']).text))],
    by decide, [], [], none⟩

/-- Both parsers are registered, the one directory is read and the builder is built. -/
def readElsewhere : List Builder.Call :=
  [.addParser (some slashParser) none, .addParser (some hashParser) none,
    .read innerElsewhere ['p'] none, .build]

theorem registrations_readElsewhere :
    (Builder.new.after readElsewhere).registrations = bothParsers.registrations := by
  have hfront : bothParsers.registrations <+: (Builder.new.after readElsewhere).registrations :=
    Builder.registrations_prefix_after ⟨bothParsers.registrations, .empty, .configuring, [], []⟩
      [.read innerElsewhere ['p'] none, .build]
  exact (hfront.eq_of_length (by decide +kernel)).symm

/-- A restored body need not be in the final text: the second parser finds a region of its own
in the body that the first one has put in, and knows another body for it. -/
theorem not_forall_restored_stays :
    ¬ ∀ (calls : List Builder.Call) (w : Workspace) (path contents u : Text) (links : List Link),
      (Builder.new.after calls).stage = .built →
      Links w (Builder.new.after calls).support.pool path
        (parsersFor (Builder.new.after calls).support.registrations path) contents links u →
      ∀ l ∈ links, ∀ q ∈ l.merged.regions, ∀ id body, q.segment.id = some id →
        l.bodies id = some body →
          q.segment.startMarker ++ body ++ q.segment.endMarker <:+: u := by
  intro hall
  have hstays := hall readElsewhere innerElsewhere "o/a".toList (slashRegion ['z', '\n']).text
    (slashRegion (hashRegion ['y', '\n']).text).text
  have hbuilt : (Builder.new.after readElsewhere).stage = .built := by decide +kernel
  have hparsers : parsersFor (Builder.new.after readElsewhere).support.registrations
      "o/a".toList = [slashParser, hashParser] := by
    rw [Builder.support, registrations_readElsewhere]
    rfl
  have hbody : (Builder.new.after readElsewhere).support.pool.body? ['A'] =
      some (hashRegion ['x', '\n']).text := by decide +kernel
  rw [hparsers] at hstays
  -- of the builder only its parsers and the body of the outer region count from here on
  generalize (Builder.new.after readElsewhere).support.pool = pool at hstays hbody
  have hread : innerElsewhere.readText "o/a".toList = .ok (hashRegion ['y', '\n']).text := by
    decide +kernel
  have hfile : HasFile innerElsewhere "o/a".toList := by constructor <;> decide +kernel
  have hslash : slashParser.parse (slashRegion ['z', '\n']).text =
      .ok (.ofSegments [slashRegion ['z', '\n']]) := by decide +kernel
  have hhash : hashParser.parse (slashRegion (hashRegion ['x', '\n']).text).text =
      .ok (.ofSegments [.plain (slashRegion []).startMarker, hashRegion ['x', '\n'],
        .plain (slashRegion []).endMarker]) := by decide +kernel
  have hold : hashParser.parse (hashRegion ['y', '\n']).text =
      .ok (.ofSegments [hashRegion ['y', '\n']]) := by decide +kernel
  have hmerged : (Document.ofSegments [slashRegion ['z', '\n']]).merge pool.body? =
      .ofSegments [slashRegion (hashRegion ['x', '\n']).text] := by
    simp [Document.merge, Segment.restore, Segment.withContent, slashRegion, Segment.region, hbody]
  have hlinks : Links innerElsewhere pool "o/a".toList
      [slashParser, hashParser] (slashRegion ['z', '\n']).text
      [⟨.ofSegments [slashRegion ['z', '\n']], pool.body?⟩,
        ⟨.ofSegments [.plain (slashRegion []).startMarker, hashRegion ['x', '\n'],
            .plain (slashRegion []).endMarker],
          (Document.ofSegments [hashRegion ['y', '\n']]).body?⟩]
      (slashRegion (hashRegion ['y', '\n']).text).text := by
    refine .cons hslash (known_of_forward rfl)
      (.cons ?_ (known_of_inverse rfl hfile hread hold) (.nil _))
    rw [Link.merged, hmerged, Document.text_ofSegments, List.flatMap_singleton]
    exact hhash
  have hmem : (⟨slashRegion (hashRegion ['x', '\n']).text, 0, 50⟩ : Placed) ∈
      (Link.merged ⟨.ofSegments [slashRegion ['z', '\n']], pool.body?⟩).regions := by
    rw [Link.merged, hmerged]
    decide
  have hinside := hstays _ hbuilt hlinks _ List.mem_cons_self _ hmem ['A'] _ rfl hbody
  -- the two texts are equally long, so that they would have to be the same
  exact absurd (hinside.eq_of_length (by decide)) (by decide)

end Support
end ProtectedRegions
