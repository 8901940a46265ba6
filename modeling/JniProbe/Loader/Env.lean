import JniProbe.Bpf.EnvProbe
import JniProbe.Loader.Offsets

/-!
`jniprobe env`: the first dump that looks like the function table of libart is
written as a JSON object of slots and offsets.
-/

namespace JniProbe

open GoText GoFormat

/-- The words of a dump that point into the executable mapping. -/
def envKeys (execLo execHi : UInt64) (d : EnvDump) : List (Fin envSlots) :=
  (List.finRange envSlots).filter (fun i => execLo ≤ d.slots.get i ∧ d.slots.get i < execHi)

/-- `fmt.Fprintf(&sb, "  \"%d\": \"0x%x\"", i, d.Slots[i]-base)`. -/
def envLine (base : UInt64) (d : EnvDump) (i : Fin envSlots) : Bytes :=
  str "  \"" ++ digits 10 i.val ++ str "\": \"" ++ hex (d.slots.get i - base) ++ str "\""

def envText (base execLo execHi : UInt64) (d : EnvDump) : Bytes :=
  str "\x7b\n" ++ join ((envKeys execLo execHi d).map (envLine base d)) (str ",\n") ++
    str "\n\x7d\n"

/-- What one record makes the loop write; a dump with less than half of its
words in the executable mapping is skipped. -/
def envFile (target : Option (UInt64 × UInt64 × UInt64)) (d : EnvDump) : Option Bytes :=
  match target with
  | none => none
  | some (base, execLo, execHi) =>
    if 2 * (envKeys execLo execHi d).length < envSlots then none
    else some (envText base execLo execHi d)

/-- The file that `runEnv` leaves, `libartBase` giving the mapping of a process. -/
def runEnv (libartBase : UInt32 → Option (UInt64 × UInt64 × UInt64)) (records : List EnvDump) :
    Option Bytes :=
  records.findSome? (fun d => envFile (libartBase d.pid) d)

/-! ### The written object is read back -/

/-- A member as `runEnv` lays it out, but for the indentation. -/
def envMember (e : Bytes × Bytes) : Bytes := GoJson.quoted e.1 ++ str ": " ++ GoJson.quoted e.2

/-- Several members as `runEnv` lays them out. -/
def envLayout (es : List (Bytes × Bytes)) : Bytes :=
  join (es.map (fun e => str "  " ++ envMember e)) (str ",\n")

theorem envLayout_singleton (e : Bytes × Bytes) : envLayout [e] = str "  " ++ envMember e := by
  rw [envLayout, List.map_singleton, join, List.intercalate_singleton]

theorem envLayout_cons (e next : Bytes × Bytes) (rest : List (Bytes × Bytes)) :
    envLayout (e :: next :: rest) =
      str "  " ++ (envMember e ++ (str ",\n" ++ envLayout (next :: rest))) := by
  rw [envLayout, List.map_cons, List.map_cons, join, List.intercalate_cons_cons, envLayout, join,
    List.map_cons]
  simp only [List.append_assoc]

theorem length_le_envLayout (es : List (Bytes × Bytes)) : es.length ≤ (envLayout es).length := by
  have htwo : (str "  ").length = 2 := rfl
  induction es with
  | nil => exact Nat.zero_le _
  | cons e rest ih =>
      cases rest with
      | nil =>
          rw [envLayout_singleton, List.length_append, htwo, List.length_singleton]
          omega
      | cons next rest =>
          rw [envLayout_cons, List.length_append, htwo, List.length_append, List.length_append,
            List.length_cons]
          omega

def PlainEntry (e : Bytes × Bytes) : Prop :=
  (∀ c ∈ e.1, GoJson.isPlain c = true) ∧ ∀ c ∈ e.2, GoJson.isPlain c = true

theorem skipBlank_member (e : Bytes × Bytes) (rest : Bytes) :
    GoJson.skipBlank (str "  " ++ (envMember e ++ rest)) = envMember e ++ rest := by
  have hquote : envMember e ++ rest =
      34 :: (e.1 ++ str "\"" ++ str ": " ++ GoJson.quoted e.2 ++ rest) := by
    simp only [envMember, GoJson.quoted, List.append_assoc]
    rfl
  rw [hquote]
  exact GoJson.skipBlank_append (by decide) (by decide)

/-- The members of the object, from the first one on. -/
theorem members_layout (es : List (Bytes × Bytes)) (e : Bytes × Bytes)
    (hplain : ∀ e' ∈ e :: es, PlainEntry e') (fuel depth : Nat) (hfuel : es.length + 2 ≤ fuel) :
    GoJson.members fuel depth (GoJson.skipBlank (envLayout (e :: es) ++ str "\n\x7d\n")) =
      some ((e :: es).map (fun e => (e.1, GoJson.Kind.text e.2)), str "\n") := by
  induction es generalizing e fuel with
  | nil =>
      obtain ⟨hkey, hval⟩ := hplain e List.mem_cons_self
      obtain ⟨fuel, rfl⟩ : ∃ n, fuel = n + 2 := ⟨fuel - 2, by omega⟩
      rw [envLayout_singleton, List.append_assoc, skipBlank_member]
      have hblank : (str "\n").all GoJson.isBlank = true := by decide
      exact GoJson.members_last hkey hval hblank fuel depth (str "\n")
  | cons next rest ih =>
      obtain ⟨hkey, hval⟩ := hplain e List.mem_cons_self
      rw [List.length_cons] at hfuel
      obtain ⟨fuel, rfl⟩ : ∃ n, fuel = n + 2 := ⟨fuel - 2, by omega⟩
      have hrest := ih next (fun e' he' => hplain e' (List.mem_cons_of_mem e he')) (fuel + 1)
        (by omega)
      have hcomma (more : Bytes) : str ",\n" ++ more = 44 :: 10 :: more := rfl
      have hnewline (more : Bytes) : GoJson.skipBlank (10 :: more) = GoJson.skipBlank more := rfl
      rw [envLayout_cons, List.append_assoc, List.append_assoc, skipBlank_member, hcomma,
        List.cons_append, List.cons_append, envMember, GoJson.members_more hkey hval, hnewline,
        hrest]
      rfl

theorem mapM_text (es : List (Bytes × Bytes)) :
    (es.map (fun e => (e.1, GoJson.Kind.text e.2))).mapM
      (fun m => m.2.toString?.map (fun v => (m.1, v))) = some es := by
  induction es with
  | nil => rfl
  | cons e rest ih =>
      rw [List.map_cons, List.mapM_cons, ih]
      rfl

/-- The entries that the text of a dump lists. -/
def envEntries (base execLo execHi : UInt64) (d : EnvDump) : List (Bytes × Bytes) :=
  (envKeys execLo execHi d).map (fun i => (digits 10 i.val, hex (d.slots.get i - base)))

theorem envText_eq (base execLo execHi : UInt64) (d : EnvDump) :
    envText base execLo execHi d =
      str "\x7b\n" ++ (envLayout (envEntries base execLo execHi d) ++ str "\n\x7d\n") := by
  have hline (i : Fin envSlots) : envLine base d i =
      str "  " ++ envMember (digits 10 i.val, hex (d.slots.get i - base)) := by
    simp only [envLine, envMember, GoJson.quoted, List.append_assoc]
    rfl
  rw [envText, envLayout, envEntries, List.map_map, List.append_assoc]
  simp only [Function.comp_def, ← hline]

theorem isPlain_digits {base n : Nat} (hbase : 1 < base) (hbase' : base ≤ 16) {c : UInt8}
    (h : c ∈ digits base n) : GoJson.isPlain c = true := by
  obtain ⟨d, hd, rfl⟩ := GoNumber.mem_digits hbase h
  have hall : ∀ d : Fin 16, GoJson.isPlain (GoNumber.digitByte d) = true := by decide
  exact hall ⟨d, by omega⟩

theorem isPlain_hex {v : UInt64} {c : UInt8} (h : c ∈ hex v) : GoJson.isPlain c = true := by
  rw [hex, List.mem_append] at h
  rcases h with hfront | hdigit
  · have hall : (str "0x").all GoJson.isPlain = true := by decide
    exact List.all_eq_true.mp hall c hfront
  · exact isPlain_digits (by decide) (by decide) hdigit

/-- Decoding the text of a dump gives its entries. -/
theorem unmarshal_envText {base execLo execHi : UInt64} {d : EnvDump}
    (hsome : envKeys execLo execHi d ≠ []) :
    GoJson.unmarshal (envText base execLo execHi d) = some (envEntries base execLo execHi d) := by
  have hplain : ∀ e ∈ envEntries base execLo execHi d, PlainEntry e := by
    intro e he
    obtain ⟨i, -, rfl⟩ := List.mem_map.mp he
    exact ⟨fun c hc => isPlain_digits (by decide) (by decide) hc, fun c hc => isPlain_hex hc⟩
  have hne : envEntries base execLo execHi d ≠ [] := by
    rw [envEntries, ne_eq, List.map_eq_nil_iff]
    exact hsome
  obtain ⟨e, es, hentries⟩ := List.exists_cons_of_ne_nil hne
  rw [hentries] at hplain
  have htext : envText base execLo execHi d =
      123 :: 10 :: (envLayout (e :: es) ++ str "\n\x7d\n") := by
    rw [envText_eq, hentries]
    rfl
  have hfuel : es.length + 2 ≤ 2 * (envText base execLo execHi d).length + 1 := by
    have hlayout := length_le_envLayout (e :: es)
    rw [List.length_cons] at hlayout
    rw [htext, List.length_cons, List.length_cons, List.length_append]
    omega
  have hobject := GoJson.object_of_members
    (members_layout es e hplain _ (GoJson.maxNestingDepth - 1) hfuel)
  rw [htext] at hobject ⊢
  rw [GoJson.unmarshal_object hobject rfl, mapM_text, hentries]

end JniProbe
