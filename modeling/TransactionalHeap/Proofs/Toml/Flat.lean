import Mathlib.Data.List.Nodup
import TransactionalHeap.Proofs.Toml.Scalars
import TransactionalHeap.Toml.Flat

/-!
# Flat documents read back

A flat document is read as the entries that it was written for (`Flat.ofText?_text`): each line as
one statement, and the statements one after another into a draft. So the fields of a record can be
had from the document that they were written to (`Flat.renders_ofFields`).
-/

namespace TransactionalHeap.Toml

open Text

namespace Plain

def toToml : Plain → Toml
  | number n => .int n
  | name text => .string text

/-- A number of 63 bits, or a name that needs no escapes. -/
def Readable : Plain → Prop
  | number n => n < 2 ^ 63
  | name text => IsPlain text

variable {v : Plain} {key : String} {rest : List Char}

theorem assigned_append :
    v.assigned key ++ rest = key.toList ++ ' ' :: '=' :: ' ' :: (v.text ++ '\n' :: rest) := by
  simp [assigned, line]

theorem valueFrom_text (readable : v.Readable) (fuel depth : Nat) :
    valueFrom (fuel + 1) depth (v.text ++ '\n' :: rest) = some (v.toToml, '\n' :: rest) := by
  cases v with
  | number n => exact valueFrom_digits readable fuel depth rest
  | name text =>
    rw [Plain.text, List.append_assoc]
    exact valueFrom_quoted readable fuel depth ('\n' :: rest)

theorem skipSpaces_text (rest : List Char) : skipSpaces (v.text ++ rest) = v.text ++ rest := by
  cases v with
  | number n =>
    obtain ⟨c, cs, hdigits, hc⟩ := digits_exists_cons n
    rw [text, hdigits]
    exact skipSpaces_of_not_isSpace (isSpace_of_isBareKey hc) _
  | name text => exact skipSpaces_of_not_isSpace (by decide) _

theorem assignmentFrom_text (plain : IsPlain key) (readable : v.Readable) (fuel depth : Nat)
    (rest : List Char) :
    assignmentFrom (fuel + 2) depth
        (key.toList ++ ' ' :: '=' :: ' ' :: (v.text ++ '\n' :: rest)) =
      some ([key], v.toToml, '\n' :: rest) := by
  have hkey : key? maxDepth (key.toList ++ ' ' :: '=' :: ' ' :: (v.text ++ '\n' :: rest)) =
      some ([key], '=' :: ' ' :: (v.text ++ '\n' :: rest)) :=
    key?_plain plain (by decide) rfl (by decide)
  have hskip : skipSpaces (' ' :: (v.text ++ '\n' :: rest)) = v.text ++ '\n' :: rest :=
    skipSpaces_text _
  simp [assignmentFrom, hkey, hskip, valueFrom_text readable]

end Plain

/-! ## Lines -/

/-- Whoever reads a text with fuel for each of its characters gets these statements. -/
def Tells (cs : List Char) (ss : List Statement) : Prop :=
  ∀ fuel, cs.length ≤ fuel → statementsFrom fuel cs = some ss

section Lines

variable {cs rest : List Char} {ss : List Statement} {s : Statement} {c : Char}

theorem tells_nil : Tells [] [] := fun fuel _ => by rw [statementsFrom]

theorem tells_blank (later : Tells rest ss) : Tells ('\n' :: rest) ss := by
  rintro (_ | fuel) enough
  · cases enough
  · exact later fuel (Nat.le_of_succ_le_succ enough)

/-- Only with a blank, a comment or a line end does a line start that says nothing. -/
theorem lineEnd?_eq_none (space : isSpace c = false) (comment : c ≠ '#') (newline : c ≠ '\n')
    (carriage : c ≠ '\r') : lineEnd? (c :: cs) = none := by
  have hskip : skipComment (skipSpaces (c :: cs)) = c :: cs := by
    rw [skipSpaces_of_not_isSpace space, skipComment]
    exact fun _ h => comment (List.cons.inj h).1
  have hbreak : lineBreak? (c :: cs) = none := by
    rw [lineBreak?]
    · exact fun _ h => newline (List.cons.inj h).1
    · exact fun _ h => carriage (List.cons.inj h).1
  rw [lineEnd?, hskip]
  exact hbreak

theorem tells_line (hspace : isSpace c = false) (speaks : lineEnd? (c :: cs) = none)
    (read : statement? (c :: cs) = some (s, '\n' :: rest)) (shorter : rest.length ≤ cs.length)
    (later : Tells rest ss) : Tells (c :: cs) (s :: ss) := by
  rintro (_ | fuel) enough
  · cases enough
  · have hlater := later fuel (Nat.le_trans shorter (Nat.le_of_succ_le_succ enough))
    have hend : lineEnd? ('\n' :: rest) = some rest := rfl
    simp [statementsFrom, speaks, skipSpaces_of_not_isSpace hspace, read, hend, hlater]

theorem tells_assigned {key : String} {v : Plain} (plain : IsPlain key) (readable : v.Readable)
    (later : Tells rest ss) : Tells (v.assigned key ++ rest) (.assign [key] v.toToml :: ss) := by
  have hread := fun fuel => Plain.assignmentFrom_text plain readable fuel maxDepth rest
  rw [Plain.assigned_append]
  obtain ⟨c, cs, hkey, hc⟩ := plain.exists_cons
  rw [hkey, List.cons_append] at hread ⊢
  have hne : ∀ d, isBareKey d = false → c ≠ d := fun _ => ne_of_isBareKey hc
  have hspace := isSpace_of_isBareKey hc
  refine tells_line hspace (lineEnd?_eq_none hspace ?_ ?_ ?_) ?_ ?_ later
  iterate 3 exact hne _ (by decide)
  · rw [statement?]
    · simp [hread]
    all_goals exact fun _ h => hne _ (by decide) (List.cons.inj h).1
  · simp
    omega

theorem tells_header {name : String} (plain : IsPlain name) (later : Tells rest ss) :
    Tells ('[' :: (name.toList ++ ']' :: '\n' :: rest)) (.header [name] :: ss) := by
  have hkey : key? maxDepth (name.toList ++ ']' :: '\n' :: rest) =
      some ([name], ']' :: '\n' :: rest) :=
    key?_plain plain (by decide) rfl (by decide)
  refine tells_line (by decide) (lineEnd?_eq_none ?_ ?_ ?_ ?_) ?_ ?_ later
  iterate 4 decide
  · obtain ⟨c, cs, hname, hc⟩ := plain.exists_cons
    rw [statement?]
    · simp [hkey]
    · intro _ h
      rw [hname] at h
      exact ne_of_isBareKey hc (by decide) (List.cons.inj h).1
  · simp
    omega

/-- No statement starts with a byte order mark. -/
theorem statementsFrom_mark (fuel : Nat) : statementsFrom fuel ('\uFEFF' :: rest) = none := by
  have hkey : key? maxDepth ('\uFEFF' :: rest) = none := by
    have hskip : skipSpaces ('\uFEFF' :: rest) = '\uFEFF' :: rest :=
      skipSpaces_of_not_isSpace (by decide) _
    -- The mark is no bare character, so that there is no key to start with.
    have hname : simpleKey? ('\uFEFF' :: rest) = none := by
      simp [simpleKey?, List.span_eq_takeWhile_dropWhile,
        List.takeWhile_cons_of_neg (a := '\uFEFF') (p := isBareKey) (by decide)]
    rw [maxDepth, key?, hskip, hname]
    rfl
  have hline : lineEnd? ('\uFEFF' :: rest) = none := by
    apply lineEnd?_eq_none <;> decide
  cases fuel with
  | zero => rfl
  | succ fuel =>
    simp [statementsFrom, hline, skipSpaces_of_not_isSpace (c := '\uFEFF') (by decide) rest,
      statement?, assignmentFrom, hkey]

theorem statements?_of_tells (tells : Tells cs ss) : statements? cs = some ss := by
  have hread := tells cs.length (Nat.le_refl _)
  rw [statements?]
  · exact hread
  · rintro rest rfl
    rw [statementsFrom_mark] at hread
    cases hread

end Lines

/-! ## Settings -/

namespace Settings

def entries (settings : Settings) : Entries := settings.map fun e => (e.1, e.2.toToml)

def statements (settings : Settings) : List Statement :=
  settings.map fun e => .assign [e.1] e.2.toToml

def Readable (settings : Settings) : Prop := ∀ e ∈ settings, IsPlain e.1 ∧ e.2.Readable

variable {settings : Settings} {e : String × Plain}

@[simp] theorem text_nil : text [] = [] := rfl

@[simp] theorem text_cons : text (e :: settings) = e.2.assigned e.1 ++ settings.text := rfl

@[simp] theorem entries_nil : entries [] = [] := rfl

@[simp] theorem entries_cons : entries (e :: settings) = (e.1, e.2.toToml) :: settings.entries := rfl

@[simp] theorem map_fst_entries (settings : Settings) :
    settings.entries.map Prod.fst = settings.map Prod.fst := by
  simp [entries]

@[simp] theorem readable_nil : Readable [] := fun _ he => by cases he

@[simp] theorem readable_cons :
    Readable (e :: settings) ↔ (IsPlain e.1 ∧ e.2.Readable) ∧ settings.Readable :=
  List.forall_mem_cons

theorem tells_text {rest : List Char} {ss : List Statement} (readable : settings.Readable)
    (later : Tells rest ss) : Tells (settings.text ++ rest) (settings.statements ++ ss) := by
  induction settings with
  | nil => exact later
  | cons e settings ih =>
    obtain ⟨⟨hkey, hvalue⟩, hsettings⟩ := readable_cons.mp readable
    rw [text_cons, List.append_assoc]
    exact tells_assigned hkey hvalue (ih hsettings)

end Settings

/-! ## Drafts -/

section Drafts

variable {entries old : Entries} {key name : String} {value : Toml}

theorem valueOf?_eq_none (absent : key ∉ entries.map Prod.fst) : valueOf? entries key = none := by
  rw [valueOf?, List.lookup_eq_none_iff]
  intro e he
  rw [bne_iff_ne]
  rintro rfl
  exact absent (List.mem_map_of_mem he)

/-- Where no key is given twice, a key has the value of its entry. -/
theorem valueOf?_of_mem (distinct : (entries.map Prod.fst).Nodup)
    (mem : (key, value) ∈ entries) : valueOf? entries key = some value := by
  induction entries with
  | nil => cases mem
  | cons e entries ih =>
    obtain ⟨habsent, hlater⟩ := List.nodup_cons.mp distinct
    rw [valueOf?, List.lookup_cons]
    rcases List.mem_cons.mp mem with rfl | hmem
    · rw [beq_self_eq_true]
    · have hne : key ≠ e.1 := by
        rintro rfl
        exact habsent (List.mem_map.mpr ⟨_, hmem, rfl⟩)
      rw [beq_false_of_ne hne]
      exact ih hlater hmem

theorem valueOf?_append_self (absent : key ∉ entries.map Prod.fst) :
    valueOf? (entries ++ [(key, value)]) key = some value := by
  have hnone := valueOf?_eq_none absent
  rw [valueOf?] at hnone ⊢
  rw [List.lookup_append, hnone]
  simp

theorem replace_append_self (absent : key ∉ entries.map Prod.fst) (value' : Toml) :
    replace (entries ++ [(key, value)]) key value' = entries ++ [(key, value')] := by
  have hold : ∀ e ∈ entries, (if e.1 = key then (key, value') else e) = e := by
    intro e he
    rw [if_neg]
    rintro rfl
    exact absent (List.mem_map_of_mem he)
  rw [replace, List.map_append, List.map_congr_left hold]
  simp

theorem assign_new (absent : key ∉ entries.map Prod.fst) :
    Toml.assign [key] value .header entries = some (entries ++ [(key, value)]) := by
  have hnone := valueOf?_eq_none absent
  simp [Toml.assign, within, define, hnone]

theorem openTable_new (absent : name ∉ entries.map Prod.fst) :
    atParent openTable [name] entries = some (entries ++ [(name, table .header [])]) := by
  have hnone := valueOf?_eq_none absent
  simp [atParent, within, openTable, hnone]

/-- A line under a header goes into the table of the header. -/
theorem add_under_header (fresh : name ∉ entries.map Prod.fst) (absent : key ∉ old.map Prod.fst) :
    Draft.add ⟨entries ++ [(name, table .header old)], [name]⟩ (.assign [key] value) =
      some ⟨entries ++ [(name, table .header (old ++ [(key, value)]))], [name]⟩ := by
  simp [Draft.add, within, valueOf?_append_self fresh, assign_new absent,
    replace_append_self fresh]

theorem add_top (absent : key ∉ entries.map Prod.fst) :
    Draft.add ⟨entries, []⟩ (.assign [key] value) = some ⟨entries ++ [(key, value)], []⟩ := by
  simp [Draft.add, within, assign_new absent]

/-- Settings go where single lines go, one after another. -/
theorem Settings.foldlM_add (draft : Entries → Draft)
    (grows : ∀ {old key value}, key ∉ old.map Prod.fst →
      (draft old).add (.assign [key] value) = some (draft (old ++ [(key, value)])))
    (settings : Settings) (old : Entries)
    (distinct : (old.map Prod.fst ++ settings.map Prod.fst).Nodup) :
    settings.statements.foldlM Draft.add (draft old) = some (draft (old ++ settings.entries)) := by
  induction settings generalizing old with
  | nil => simp [statements]
  | cons e settings ih =>
    -- What is there already grows with each line, and so the later keys are compared with it.
    have habsent : e.1 ∉ old.map Prod.fst := fun hmem =>
      (List.nodup_append.mp distinct).2.2 _ hmem _ List.mem_cons_self rfl
    have hlater := ih (old ++ [(e.1, e.2.toToml)]) (by simpa using distinct)
    rw [statements, List.map_cons, List.foldlM_cons, grows habsent]
    simpa [statements] using hlater

end Drafts

/-! ## Documents -/

namespace Flat

def statements (d : Flat) : List Statement :=
  d.top.statements ++ d.tables.flatMap fun t => .header [t.1] :: t.2.statements

def entries (d : Flat) : Entries :=
  d.top.entries ++ d.tables.map fun t => (t.1, table .header t.2.entries)

/-- No key is given twice in one place, and every key and value can be written without escapes. -/
structure Readable (d : Flat) : Prop where
  top : d.top.Readable
  tables : ∀ t ∈ d.tables, IsPlain t.1 ∧ t.2.Readable ∧ (t.2.map Prod.fst).Nodup
  distinct : (d.top.map Prod.fst ++ d.tables.map Prod.fst).Nodup

theorem tells_tables {tables : List (String × Settings)}
    (readable : ∀ t ∈ tables, IsPlain t.1 ∧ t.2.Readable) :
    Tells (tables.flatMap fun t => tableText t.1 t.2)
      (tables.flatMap fun t => .header [t.1] :: t.2.statements) := by
  induction tables with
  | nil => exact tells_nil
  | cons t tables ih =>
    obtain ⟨hname, hsettings⟩ := readable t List.mem_cons_self
    have hlater := ih fun t' ht' => readable t' (List.mem_cons_of_mem _ ht')
    have htable := tells_blank (tells_header hname (Settings.tells_text hsettings hlater))
    simpa [tableText, line] using htable

theorem tells_text {d : Flat} (readable : d.Readable) : Tells d.text d.statements :=
  Settings.tells_text readable.top
    (tells_tables fun t ht => ⟨(readable.tables t ht).1, (readable.tables t ht).2.1⟩)

theorem foldlM_tables (tables : List (String × Settings)) (entries : Entries) (path : List String)
    (own : ∀ t ∈ tables, (t.2.map Prod.fst).Nodup)
    (distinct : (entries.map Prod.fst ++ tables.map Prod.fst).Nodup) : ∃ path',
      (tables.flatMap fun t => .header [t.1] :: t.2.statements).foldlM Draft.add ⟨entries, path⟩ =
        some ⟨entries ++ tables.map fun t => (t.1, table .header t.2.entries), path'⟩ := by
  induction tables generalizing entries path with
  | nil => exact ⟨path, by simp⟩
  | cons t tables ih =>
    have hfresh : t.1 ∉ entries.map Prod.fst := fun hmem =>
      (List.nodup_append.mp distinct).2.2 _ hmem _ List.mem_cons_self rfl
    have hheader : Draft.add ⟨entries, path⟩ (.header [t.1]) =
        some ⟨entries ++ [(t.1, table .header [])], [t.1]⟩ := by
      simp [Draft.add, openTable_new hfresh]
    have hsettings := Settings.foldlM_add
      (fun old => ⟨entries ++ [(t.1, table .header old)], [t.1]⟩) (add_under_header hfresh) t.2 []
      (own t List.mem_cons_self)
    obtain ⟨path', hlater⟩ := ih (entries ++ [(t.1, table .header t.2.entries)]) [t.1]
      (fun t' ht' => own t' (List.mem_cons_of_mem _ ht')) (by simpa using distinct)
    refine ⟨path', ?_⟩
    rw [List.nil_append] at hsettings
    rw [List.flatMap_cons, List.cons_append, List.foldlM_cons, hheader]
    simp only [bind, Option.bind_some, List.foldlM_append, hsettings, hlater]
    simp

theorem foldlM_statements {d : Flat} (readable : d.Readable) :
    ∃ path, d.statements.foldlM Draft.add {} = some ⟨d.entries, path⟩ := by
  have htop := Settings.foldlM_add (fun old => ⟨old, []⟩) add_top d.top []
    (List.nodup_append.mp readable.distinct).1
  obtain ⟨path, htables⟩ := foldlM_tables d.tables d.top.entries []
    (fun t ht => (readable.tables t ht).2.2)
    (by rw [Settings.map_fst_entries]; exact readable.distinct)
  refine ⟨path, ?_⟩
  rw [List.nil_append] at htop
  rw [statements, List.foldlM_append, htop]
  exact htables

/-- What has been written is read. -/
theorem ofText?_text {d : Flat} (readable : d.Readable) :
    ofText? (String.ofList d.text) = some d.entries := by
  obtain ⟨path, hfold⟩ := foldlM_statements readable
  have hread := statements?_of_tells (tells_text readable)
  simp [ofText?, hread, hfold]

end Flat

/-! ## Records -/

/-- The names of a field need no escapes, and each is given once. -/
def Field.Spelled : Field → Prop
  | .number _ | .absent => True
  | .tagged tag kind numbers =>
    IsPlain tag ∧ IsPlain kind ∧ (∀ e ∈ numbers, IsPlain e.1) ∧ (tag :: numbers.map Prod.fst).Nodup

namespace Flat

section Records

variable {fields : Fields} {key : String}

theorem mem_top_ofFields {v : Plain} :
    (key, v) ∈ (ofFields fields).top ↔ ∃ n, (key, .number n) ∈ fields ∧ v = .number n := by
  rw [ofFields, List.mem_filterMap]
  constructor
  · rintro ⟨⟨key', field⟩, hmem, hwritten⟩
    cases field <;> cases hwritten
    exact ⟨_, hmem, rfl⟩
  · rintro ⟨n, hmem, rfl⟩
    exact ⟨_, hmem, rfl⟩

theorem mem_tables_ofFields {settings : Settings} :
    (key, settings) ∈ (ofFields fields).tables ↔ ∃ tag kind numbers,
      (key, .tagged tag kind numbers) ∈ fields ∧
        settings = (tag, .name kind) :: numbers.map fun e => (e.1, .number e.2) := by
  rw [ofFields, List.mem_filterMap]
  constructor
  · rintro ⟨⟨key', field⟩, hmem, hwritten⟩
    cases field <;> cases hwritten
    exact ⟨_, _, _, hmem, rfl⟩
  · rintro ⟨tag, kind, numbers, hmem, rfl⟩
    exact ⟨_, hmem, rfl⟩

/-- What is picked from fields with different keys has different keys. -/
theorem nodup_filterMap {α : Type} {pick : String × Field → Option (String × α)}
    (keeps : ∀ f e, pick f = some e → e.1 = f.1) (distinct : (fields.map Prod.fst).Nodup) :
    ((fields.filterMap pick).map Prod.fst).Nodup := by
  induction fields with
  | nil => exact List.nodup_nil
  | cons f fields ih =>
    obtain ⟨habsent, hlater⟩ := List.nodup_cons.mp distinct
    rw [List.filterMap_cons]
    split
    · exact ih hlater
    · rename_i e he
      refine List.nodup_cons.mpr ⟨fun hmem => habsent ?_, ih hlater⟩
      obtain ⟨e', hpicked, hsame⟩ := List.mem_map.mp hmem
      obtain ⟨f', hmem', he'⟩ := List.mem_filterMap.mp hpicked
      rw [← keeps f e he, ← hsame, keeps f' e' he']
      exact List.mem_map_of_mem hmem'

/-- One key has one field. -/
theorem field_unique (distinct : (fields.map Prod.fst).Nodup) {f f' : Field}
    (mem : (key, f) ∈ fields) (mem' : (key, f') ∈ fields) : f = f' :=
  congrArg Prod.snd (List.inj_on_of_nodup_map distinct mem mem' rfl)

theorem nodup_ofFields (distinct : (fields.map Prod.fst).Nodup) :
    ((ofFields fields).top.map Prod.fst ++ (ofFields fields).tables.map Prod.fst).Nodup := by
  refine List.nodup_append.mpr ⟨nodup_filterMap ?_ distinct, nodup_filterMap ?_ distinct, ?_⟩
  · rintro ⟨key, field⟩ e he
    cases field <;> cases he
    rfl
  · rintro ⟨key, field⟩ e he
    cases field <;> cases he
    rfl
  · -- A number and a kind would be two fields.
    rintro key htop key' htables rfl
    obtain ⟨⟨_, v⟩, hv, rfl⟩ := List.mem_map.mp htop
    obtain ⟨⟨_, settings⟩, hsettings, hkey⟩ := List.mem_map.mp htables
    cases hkey
    obtain ⟨n, hnumber, -⟩ := mem_top_ofFields.mp hv
    obtain ⟨tag, kind, numbers, htagged, -⟩ := mem_tables_ofFields.mp hsettings
    cases field_unique distinct hnumber htagged

theorem readable_ofFields (distinct : (fields.map Prod.fst).Nodup)
    (spelled : ∀ f ∈ fields, IsPlain f.1 ∧ f.2.Spelled)
    (fit : ∀ f ∈ fields, f.2.fits = true) : (ofFields fields).Readable where
  top := by
    rintro ⟨key, v⟩ hv
    obtain ⟨n, hmem, rfl⟩ := mem_top_ofFields.mp hv
    exact ⟨(spelled _ hmem).1, fits_natCast.mp (fit _ hmem)⟩
  tables := by
    rintro ⟨key, settings⟩ hsettings
    obtain ⟨tag, kind, numbers, hmem, rfl⟩ := mem_tables_ofFields.mp hsettings
    obtain ⟨hkey, htag, hkind, hnames, hdistinct⟩ := spelled _ hmem
    refine ⟨hkey, Settings.readable_cons.mpr ⟨⟨htag, hkind⟩, ?_⟩,
      by simpa [Function.comp_def] using hdistinct⟩
    intro e he
    obtain ⟨e', he', rfl⟩ := List.mem_map.mp he
    exact ⟨hnames e' he', fits_natCast.mp (List.all_eq_true.mp (fit _ hmem) e' he')⟩
  distinct := nodup_ofFields distinct

theorem mem_entries {d : Flat} {value : Toml} : (key, value) ∈ d.entries ↔
    (∃ v, (key, v) ∈ d.top ∧ value = v.toToml) ∨
      ∃ settings, (key, settings) ∈ d.tables ∧ value = .table .header settings.entries := by
  rw [entries, List.mem_append, Settings.entries, List.mem_map, List.mem_map]
  constructor
  · rintro (⟨⟨_, v⟩, hmem, heq⟩ | ⟨⟨_, settings⟩, hmem, heq⟩) <;> cases heq
    · exact .inl ⟨v, hmem, rfl⟩
    · exact .inr ⟨settings, hmem, rfl⟩
  · rintro (⟨v, hmem, rfl⟩ | ⟨settings, hmem, rfl⟩)
    · exact .inl ⟨_, hmem, rfl⟩
    · exact .inr ⟨_, hmem, rfl⟩

/-- Every entry stands for a field, and every field that is set has one. -/
theorem renders_ofFields (distinct : (fields.map Prod.fst).Nodup)
    (spelled : ∀ f ∈ fields, IsPlain f.1 ∧ f.2.Spelled) :
    Renders fields (ofFields fields).entries := by
  have hkeys : ((ofFields fields).entries.map Prod.fst).Nodup := by
    simpa [entries, Function.comp_def] using nodup_ofFields distinct
  have hfield : ∀ {key value}, (key, value) ∈ (ofFields fields).entries →
      ∃ f, (key, f) ∈ fields ∧ f ≠ .absent := by
    intro key value hmem
    obtain ⟨v, hv, -⟩ | ⟨settings, hsettings, -⟩ := mem_entries.mp hmem
    · obtain ⟨n, hnumber, -⟩ := mem_top_ofFields.mp hv
      exact ⟨_, hnumber, nofun⟩
    · obtain ⟨tag, kind, numbers, htagged, -⟩ := mem_tables_ofFields.mp hsettings
      exact ⟨_, htagged, nofun⟩
  refine ⟨?_, ?_, ?_⟩
  · rintro ⟨key, value⟩ he
    obtain ⟨f, hmem, -⟩ := hfield he
    exact List.mem_map_of_mem hmem
  · intro key habsent
    apply valueOf?_eq_none
    rintro hkey
    obtain ⟨⟨_, value⟩, hmem, rfl⟩ := List.mem_map.mp hkey
    obtain ⟨f, hf, hne⟩ := hfield hmem
    exact hne (field_unique distinct hf habsent)
  · rintro ⟨key, field⟩ hmem hset
    cases field with
    | absent => exact absurd rfl hset
    | number n =>
      have hentry := mem_entries.mpr (.inl ⟨_, mem_top_ofFields.mpr ⟨n, hmem, rfl⟩, rfl⟩)
      exact ⟨_, valueOf?_of_mem hkeys hentry, rfl⟩
    | tagged tag kind numbers =>
      obtain ⟨-, -, -, -, hdistinct⟩ := spelled _ hmem
      have hentry := mem_entries.mpr
        (.inr ⟨_, mem_tables_ofFields.mpr ⟨tag, kind, numbers, hmem, rfl⟩, rfl⟩)
      have hinner : ((Settings.entries ((tag, .name kind) ::
          numbers.map fun e => (e.1, .number e.2))).map Prod.fst).Nodup := by
        simpa [Function.comp_def] using hdistinct
      refine ⟨_, valueOf?_of_mem hkeys hentry, valueOf?_of_mem hinner List.mem_cons_self, ?_⟩
      intro e he
      apply valueOf?_of_mem hinner
      exact List.mem_cons_of_mem _ (List.mem_map.mpr ⟨_, List.mem_map_of_mem he, rfl⟩)

end Records

end Flat

/-- A record that has a text is read from it. -/
theorem renders_write? {fields : Fields} {text : String} (distinct : (fields.map Prod.fst).Nodup)
    (spelled : ∀ f ∈ fields, IsPlain f.1 ∧ f.2.Spelled) (written : write? fields = some text) :
    ∃ entries, ofText? text = some entries ∧ Renders fields entries := by
  rw [write?] at written
  split at written <;> cases written
  rename_i hfit
  exact ⟨_, Flat.ofText?_text (Flat.readable_ofFields distinct spelled (List.all_eq_true.mp hfit)),
    Flat.renders_ofFields distinct spelled⟩

end TransactionalHeap.Toml
