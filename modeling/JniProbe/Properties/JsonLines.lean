import JniProbe.Lib.GoJsonText
import JniProbe.Lib.GoSplit
import JniProbe.Loader.Modules
import JniProbe.Properties.Aggregates
import JniProbe.System.TwoSessions

/-!
What `--json` writes. Every line of the plain output becomes one line of JSON,
whatever bytes the target put into it. The frames of the call stacks stay plain
text, but a reader can tell them from the objects by their first byte; what is
left, decoded, is the plain output.
-/

namespace JniProbe

open GoText GoFormat GoJson Scenario

/-! ### The standard output -/

/-- What `emit` hands to `fmt.Println`. -/
def Printed.text : Printed → Bytes
  | .plain line => line
  | .json line => marshalMember (str "line") line

/-- The module cache and the stack map while an event is handled. -/
structure StackView where
  maps : Option Bytes
  stackMap : UInt32 → Option (Vector UInt64 32)

/-- The frames below an entry that has been printed. -/
def framesBelow (S : Session) (e : Evt) (view : StackView) : List Bytes :=
  if e.kind = 1 then []
  else printStack S.cfg (loadModules view.maps) view.stackMap (indentStr e.depth) e.stackid e.caller

/-- What one event adds to the standard output. -/
def eventOutput (S : Session) (t : Tracker) (r : Record) (view : StackView) : List Bytes :=
  match (handleEvent S r.env t r.evt).2 with
  | none => []
  | some line => (emit S.cfg line ⟨[], []⟩).stdout.map Printed.text ++ framesBelow S r.evt view

/-- The lines of the standard output, from the first event to the last. -/
def outputLines (S : Session) : Tracker → List (Record × StackView) → List Bytes
  | _, [] => []
  | t, (r, view) :: rest =>
    eventOutput S t r view ++ outputLines S (handleEvent S r.env t r.evt).1 rest

def written (lines : List Bytes) : Bytes := lines.flatMap (fun l => l ++ [10])

def Session.withJson (S : Session) (jsonOut : Bool) : Session :=
  { S with cfg := { S.cfg with jsonOut := jsonOut, count := false } }

/-! ### Lines of JSON and lines of a stack -/

/-- A line of the output that is a JSON object. -/
def isObject (line : Bytes) : Bool := line.head? == some 123

theorem json_line_decodes (line : Bytes) :
    unmarshal (Printed.json line).text = some [(str "line", validText line)] ∧
      isObject (Printed.json line).text = true ∧ 10 ∉ (Printed.json line).text := by
  refine ⟨unmarshal_marshalMember _ _, rfl, ?_⟩
  intro hmem
  have hencoded := List.all_eq_true.mp (marshalMember_encoded (str "line") line) 10 hmem
  cases hencoded

/-- A line of a stack starts with a space and holds no line feed. -/
structure IsFrameLine (line : Bytes) : Prop where
  first : line.head? = some 32
  whole : 10 ∉ line

theorem IsFrameLine.not_isObject {line : Bytes} (h : IsFrameLine line) :
    isObject line = false := by
  rw [isObject, h.first]
  rfl

theorem newline_notMem_digits {base : Nat} (hbase : 1 < base) (hbase' : base ≤ 16) (n : Nat) :
    10 ∉ digits base n := by
  intro hmem
  obtain ⟨d, hd, hbyte⟩ := GoNumber.mem_digits hbase hmem
  have hall : ∀ d : Fin 16, 10 ≠ GoNumber.digitByte d := by decide
  exact hall ⟨d, Nat.lt_of_lt_of_le hd hbase'⟩ hbyte

theorem newline_notMem_hex (a : UInt64) : 10 ∉ hex a := by
  have hmark : 10 ∉ str "0x" := by decide
  rw [hex, List.mem_append, not_or]
  exact ⟨hmark, newline_notMem_digits (by decide) (by decide) _⟩

theorem baseName_subset (path : Bytes) : baseName path ⊆ path := by
  unfold baseName
  split
  · exact List.drop_subset _ _
  · exact List.Subset.refl _

theorem moduleLine_newline {ln : Bytes} (hln : 10 ∉ ln) {range : ModuleRange} {fo : UInt64}
    (h : moduleLine ln = some (range, fo)) : 10 ∉ range.name := by
  unfold moduleLine at h
  split at h
  · rename_i w₁ w₂ off w₃ w₄ path rest hfields
    obtain ⟨rng, -, hrange⟩ := Option.map_eq_some_iff.mp h
    obtain ⟨rfl, -⟩ := Prod.mk.inj hrange
    have hpath : path ⊆ ln := subset_of_mem_fields (by rw [hfields]; simp)
    exact fun hmem => hln (hpath (baseName_subset path hmem))
  · cases h

/-- No name of a module holds a line feed, whatever the maps hold. -/
theorem loadModules_newline (data : Option Bytes) :
    ∀ m ∈ (loadModules data).ranges, 10 ∉ m.name := by
  have hfold (lines : List Bytes) (hlines : ∀ l ∈ lines, 10 ∉ l) (mods : ModuleMap)
      (hmods : ∀ m ∈ mods.ranges, 10 ∉ m.name) :
      ∀ m ∈ (lines.foldl ModuleMap.add mods).ranges, 10 ∉ m.name := by
    induction lines generalizing mods with
    | nil => exact hmods
    | cons ln rest ih =>
        apply ih (fun l hl => hlines l (List.mem_cons_of_mem _ hl))
        unfold ModuleMap.add
        split
        · exact hmods
        · rename_i range fo hline
          intro m hm
          rcases List.mem_append.mp hm with hm | hm
          · exact hmods m hm
          · obtain rfl := List.mem_singleton.mp hm
            exact moduleLine_newline (hlines ln List.mem_cons_self) hline
  cases data with
  | none =>
      intro m hm
      cases hm
  | some text =>
      apply hfold _ (fun l hl => notMem_of_mem_split hl)
      intro m hm
      cases hm

theorem lookup_newline (data : Option Bytes) (addr : UInt64) :
    10 ∉ ((loadModules data).lookup addr).1 := by
  have hname : 10 ∉ moduleOf (loadModules data).ranges addr := by
    unfold moduleOf
    split
    · rename_i m hfind
      exact loadModules_newline data m (List.mem_of_find?_eq_some hfind)
    · exact List.not_mem_nil
  unfold ModuleMap.lookup
  dsimp only
  split
  · exact List.not_mem_nil
  · exact hname

theorem isFrameLine_frameLine (data : Option Bytes) (d : Int32) (idx : Nat) (a : UInt64) :
    IsFrameLine (frameLine (loadModules data) (indentStr d) idx a) := by
  obtain ⟨k, hindent⟩ := indentStr_spaces d
  have hname := lookup_newline data a
  have hindex : 10 ∉ digits 10 idx := newline_notMem_digits (by decide) (by decide) idx
  unfold frameLine
  rw [hindent]
  generalize (loadModules data).lookup a = found at hname
  obtain ⟨nm, b⟩ := found
  constructor
  · cases k <;> (dsimp only; split <;> rfl)
  · dsimp only at hname ⊢
    split
    · simp [hname, hindex, newline_notMem_hex]
      decide
    · simp [hindex, newline_notMem_hex]
      decide

theorem isFrameLine_framesBelow {S : Session} {e : Evt} {view : StackView} {line : Bytes}
    (h : line ∈ framesBelow S e view) : IsFrameLine line := by
  unfold framesBelow printStack at h
  split at h
  · cases h
  · split at h
    · cases h
    · split at h
      · cases h
      · obtain ⟨idx, hidx, rfl⟩ := List.mem_mapIdx.mp h
        exact isFrameLine_frameLine view.maps e.depth idx _

/-! ### A session with and without `--json` -/

theorem linesFrom_withJson (S : Session) (jsonOut : Bool) (t : Tracker) (recs : List Record) :
    linesFrom (S.withJson jsonOut) t recs = linesFrom S t recs := by
  induction recs generalizing t with
  | nil => rfl
  | cons r rest ih =>
      have hevent : handleEvent (S.withJson jsonOut) r.env t r.evt = handleEvent S r.env t r.evt :=
        rfl
      rw [linesFrom, linesFrom, hevent, ih]

/-- The output is made of the emitted lines, one after the other. -/
theorem Loader.output_eq (S : Session) (recs : List Record) : (Loader.after S recs).output =
    (linesFrom S Tracker.start recs).foldl (fun out line => emit S.cfg line out) ⟨[], []⟩ := by
  induction recs using List.reverseRecOn with
  | nil => rfl
  | append_singleton recs r ih =>
      have hlines : linesFrom S Tracker.start (recs ++ [r]) =
          linesFrom S Tracker.start recs ++ linesFrom S (Tracker.after S recs) [r] :=
        linesFrom_append S [] recs [r]
      rw [hlines, List.foldl_append, ← ih, linesFrom_singleton, Loader.after_concat, Loader.step,
        Loader.after_tracker]
      cases handleEvent S r.env (Tracker.after S recs) r.evt with
      | mk t line => cases line <;> rfl

theorem stdout_withJson (S : Session) (recs : List Record) :
    (Loader.after (S.withJson false) recs).output.stdout =
      (linesFrom S Tracker.start recs).map Printed.plain := by
  have hemit (lines : List Bytes) (out : Output) :
      (lines.foldl (fun out line => emit (S.withJson false).cfg line out) out).stdout =
        out.stdout ++ lines.map Printed.plain := by
    induction lines generalizing out with
    | nil => simp
    | cons line rest ih =>
        rw [List.foldl_cons, ih]
        simp [emit, Session.withJson]
  rw [Loader.output_eq, linesFrom_withJson, hemit]
  rfl

theorem eventOutput_withJson (S : Session) (t : Tracker) (r : Record) (view : StackView) :
    (eventOutput (S.withJson true) t r view).filter isObject =
        (handleEvent S r.env t r.evt).2.toList.map (fun line => (Printed.json line).text) ∧
      ∀ l ∈ eventOutput (S.withJson true) t r view, 10 ∉ l := by
  have hevent : handleEvent (S.withJson true) r.env t r.evt = handleEvent S r.env t r.evt := rfl
  unfold eventOutput
  rw [hevent]
  cases (handleEvent S r.env t r.evt).2 with
  | none =>
      refine ⟨rfl, ?_⟩
      intro l hl
      cases hl
  | some line =>
      obtain ⟨-, hobject, hwhole⟩ := json_line_decodes line
      have hemit : (emit (S.withJson true).cfg line ⟨[], []⟩).stdout.map Printed.text =
          [(Printed.json line).text] := rfl
      have hframes : (framesBelow (S.withJson true) r.evt view).filter isObject = [] := by
        rw [List.filter_eq_nil_iff]
        intro l hl
        rw [(isFrameLine_framesBelow hl).not_isObject]
        exact Bool.false_ne_true
      dsimp only
      rw [hemit]
      refine ⟨?_, ?_⟩
      · rw [List.singleton_append, List.filter_cons_of_pos hobject, hframes]
        rfl
      · intro l hl
        rcases List.mem_append.mp hl with hl | hl
        · rw [List.mem_singleton.mp hl]
          exact hwhole
        · exact (isFrameLine_framesBelow hl).whole

theorem outputLines_withJson (S : Session) (t : Tracker) (recs : List (Record × StackView)) :
    (outputLines (S.withJson true) t recs).filter isObject =
        (linesFrom S t (recs.map Prod.fst)).map (fun line => (Printed.json line).text) ∧
      ∀ l ∈ outputLines (S.withJson true) t recs, 10 ∉ l := by
  induction recs generalizing t with
  | nil =>
      refine ⟨rfl, ?_⟩
      intro l hl
      cases hl
  | cons p rest ih =>
      obtain ⟨r, view⟩ := p
      obtain ⟨hobjects, hwhole⟩ := eventOutput_withJson S t r view
      obtain ⟨hrest, hwhole'⟩ := ih (handleEvent S r.env t r.evt).1
      have hevent : handleEvent (S.withJson true) r.env t r.evt = handleEvent S r.env t r.evt :=
        rfl
      rw [outputLines, hevent]
      refine ⟨?_, ?_⟩
      · rw [List.filter_append, hobjects, hrest, List.map_cons, linesFrom, List.map_append]
      · intro l hl
        rcases List.mem_append.mp hl with hl | hl
        · exact hwhole l hl
        · exact hwhole' l hl

/-- Split at the line feeds, without the frames of the stacks, and decoded, the
output of a session with `--json` is that of the session without, line by line,
with stray bytes replaced. -/
theorem json_output_decodes (S : Session) (recs : List (Record × StackView)) :
    ((split 10 (written (outputLines (S.withJson true) Tracker.start recs))).filter isObject).map
        unmarshal =
      (Loader.after (S.withJson false) (recs.map Prod.fst)).output.stdout.map
        (fun p => some [(str "line", validText p.text)]) := by
  obtain ⟨hobjects, hwhole⟩ := outputLines_withJson S Tracker.start recs
  have hlast : List.filter isObject [[]] = [] := rfl
  rw [written, split_lines hwhole, List.filter_append, hlast, List.append_nil, hobjects,
    stdout_withJson, List.map_map, List.map_map]
  apply List.map_congr_left
  intro line _
  exact (json_line_decodes line).1

/-- A line feed, a quote and a stray byte in a string of the target. -/
example : (Printed.json ([10, 34, 0xFF] ++ str "<init>")).text =
    str "\x7b\"line\":\"\\n\\\"\\ufffd\\u003cinit\\u003e\"\x7d" := by decide +kernel

end JniProbe
