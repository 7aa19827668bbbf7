import DialogChart.CommandLine.Formats
import DialogChart.Proofs.CommandLine.FileSystem
import DialogChart.Proofs.Json.Position

/-!
# A run does all of its work or none of it

A run loads its settings, reads the input, reads the plot, renders it and writes the output.  This
file says what each stage comes to on a given state of the files, without the program:
`settingsPath?` tells which file of settings counts, `Loads` what comes of it, and `Renders` which
document the run will write.  `Fails` lists the errors of a run, each with everything that has to go
well before it can arise; the stages that come later do not matter to it.

The files may be kept anywhere, and numbers, colours and settings may be written in any format.  Of
the place it is only asked that a write does what it says (`Store.Lawful`).

The main statement is `run_all_or_nothing`.  A run that fails leaves the files as they were, and it
fails exactly with the errors of `Fails`.  A run that succeeds has put the rendered document under
its output path and changed nothing else, whether or not the input lay there.  Rendering is not
among the errors: settings are loaded only if every text of their palette is a colour, so it cannot
fail any more.  Files other than the selected settings and the input may hold anything.
-/

namespace DialogChart.CommandLine

/-! ### The stages of a run -/

section Stages

variable {κ σ : Type}

/-- The text of the file at a path. -/
def Store.text (store : Store σ) (s : σ) (path : String) : Except Error String :=
  match store.read s path with
  | .ok content => decode content
  | .error fault => .error (.file fault)

/-- The file of settings that counts: the one that was given, or else the local one if it is
there, or else the shared one if it is there.  If there is none, the default settings are used. -/
def Store.settingsPath? (store : Store σ) (s : σ) (given shared : Option String) :
    Option String :=
  match given with
  | some path => some path
  | none =>
    if store.holds s localSettings then some localSettings else shared.filter (store.holds s)

/-- All of the texts are colours. -/
def Readable (colors : ColorFormat κ) (texts : List String) : Prop :=
  ∀ text ∈ texts, ∃ color, colors.read text = .ok color

/-- The first of the texts that is no colour, and why. -/
inductive FirstBad (colors : ColorFormat κ) : List String → String → String → Prop where
  | of {front back : List String} {bad reason : String} : Readable colors front →
    colors.read bad = .error reason → FirstBad colors (front ++ bad :: back) bad reason

/-- What comes of loading the settings from the file that counts. -/
inductive Loads (formats : Formats κ) (store : Store σ) (s : σ) :
    Option String → Except Error Settings → Prop where
  /-- No file counts. -/
  | unset : Loads formats store s none (.ok {})
  /-- The file is not there. -/
  | missing {path : String} : store.holds s path = false →
    Loads formats store s (some path) (.error (.settings (.missing path)))
  /-- The file is there and cannot be read. -/
  | unread {path : String} {e : Error} : store.holds s path = true →
    store.text s path = .error e → Loads formats store s (some path) (.error e)
  /-- The text of the file is no document of settings. -/
  | unparsed {path source : String} : store.holds s path = true →
    store.text s path = .ok source →
    (formats.document source).bind Settings.ofValue? = none →
    Loads formats store s (some path) (.error (.settings .unreadable))
  /-- The chosen palette has a text that is no colour. -/
  | invalid {path source bad reason : String} {settings : Settings} {texts : List String} :
    store.holds s path = true → store.text s path = .ok source →
    (formats.document source).bind Settings.ofValue? = some settings →
    settings.palette = some texts → FirstBad formats.colors texts bad reason →
    Loads formats store s (some path) (.error (.settings (.invalid
      ("Invalid palette color in config: " ++ ("invalid color `" ++ bad ++ "`: " ++ reason)))))
  /-- The settings are in order: no palette is chosen, or all of its texts are colours. -/
  | loaded {path source : String} {settings : Settings} : store.holds s path = true →
    store.text s path = .ok source →
    (formats.document source).bind Settings.ofValue? = some settings →
    (∀ texts, settings.palette = some texts → Readable formats.colors texts) →
    Loads formats store s (some path) (.ok settings)

/-- The settings, the input and the plot are in order, and the plot is rendered as a document. -/
inductive Renders (formats : Formats κ) (store : Store σ) (s : σ) (shared : Option String)
    (arguments : Arguments) : String → Prop where
  | of {settings : Settings} {source json : String} {plot : Plot} :
    Loads formats store s (store.settingsPath? s arguments.settings shared) (.ok settings) →
    store.text s arguments.input = .ok source →
    (Chart.parse formats.numbers source).value = .ok plot →
    (Chart.render formats.colors settings plot).value = .ok json →
    Renders formats store s shared arguments json

/-- The errors of a run, in the order in which they take precedence. -/
inductive Fails (formats : Formats κ) (store : Store σ) (s : σ) (shared : Option String)
    (arguments : Arguments) : Error → Prop where
  /-- The settings cannot be loaded. -/
  | settings {e : Error} :
    Loads formats store s (store.settingsPath? s arguments.settings shared) (.error e) →
    Fails formats store s shared arguments e
  /-- The settings are in order, and the input cannot be read. -/
  | input {settings : Settings} {e : Error} :
    Loads formats store s (store.settingsPath? s arguments.settings shared) (.ok settings) →
    store.text s arguments.input = .error e → Fails formats store s shared arguments e
  /-- The settings and the input are in order, and the input is no plot. -/
  | plot {settings : Settings} {source : String} {e : Error} :
    Loads formats store s (store.settingsPath? s arguments.settings shared) (.ok settings) →
    store.text s arguments.input = .ok source →
    (Chart.parse formats.numbers source).value = .error e →
    Fails formats store s shared arguments e
  /-- The document is ready and cannot be written. -/
  | output {json : String} {fault : FileFault} : Renders formats store s shared arguments json →
    store.write s arguments.output (encode json) = .error fault →
    Fails formats store s shared arguments (.file fault)

/-- What comes of an action on a state, and the state afterwards. -/
def perform {α : Type} (action : ExceptT Error (StateM σ) α) (s : σ) : Except Error α × σ :=
  StateT.run action.run s

/-- What comes of a run, and the files afterwards. -/
def outcome (formats : Formats κ) (store : Store σ) (s : σ) (shared : Option String)
    (arguments : Arguments) : Except Error Unit × σ :=
  perform (run formats store.disk shared arguments) s

end Stages

/-! ### Palettes of texts -/

section Palettes

variable {κ : Type} {colors : ColorFormat κ}

/-- Texts that are colours make a palette. -/
lemma exists_mapM_parse {texts : List String} (h : Readable colors texts) :
    ∃ found, texts.mapM colors.parse = .ok found := by
  induction texts with
  | nil => exact ⟨[], rfl⟩
  | cons text texts ih =>
    obtain ⟨color, hcolor⟩ := h text List.mem_cons_self
    obtain ⟨found, hfound⟩ := ih fun t ht => h t (List.mem_cons_of_mem text ht)
    refine ⟨color :: found, ?_⟩
    rw [List.mapM_cons, hfound, ColorFormat.parse, hcolor]
    rfl

/-- The first text that is no colour is the one that is refused. -/
lemma FirstBad.ofTexts_eq {texts : List String} {bad reason : String}
    (h : FirstBad colors texts bad reason) :
    Palette.ofTexts colors texts = .error
      ("Invalid palette color in config: " ++ ("invalid color `" ++ bad ++ "`: " ++ reason)) := by
  obtain ⟨hfront, hbad⟩ := h
  rename_i front back
  have hmapM : (front ++ bad :: back).mapM colors.parse =
      .error ("invalid color `" ++ bad ++ "`: " ++ reason) := by
    obtain ⟨found, hfound⟩ := exists_mapM_parse hfront
    rw [List.mapM_append, List.mapM_cons, hfound, ColorFormat.parse, hbad]
    rfl
  rw [Palette.ofTexts, hmapM]
  rfl

/-- Either all texts are colours, or there is a first one that is none. -/
lemma readable_or_firstBad (colors : ColorFormat κ) (texts : List String) :
    Readable colors texts ∨ ∃ bad reason, FirstBad colors texts bad reason := by
  induction texts with
  | nil => exact .inl fun _ h => nomatch h
  | cons text texts ih =>
    cases htext : colors.read text with
    | error reason =>
      have hfirst : FirstBad colors ([] ++ text :: texts) text reason :=
        .of (fun _ h => nomatch h) htext
      exact .inr ⟨text, reason, hfirst⟩
    | ok color =>
      have hcons : ∀ {front}, Readable colors front → Readable colors (text :: front) :=
        fun hfront => List.forall_mem_cons.mpr ⟨⟨color, htext⟩, hfront⟩
      rcases ih with hall | ⟨bad, reason, hfront, hbad⟩
      · exact .inl (hcons hall)
      · exact .inr ⟨bad, reason, .of (hcons hfront) hbad⟩

/-- A chosen palette whose texts are colours can be read, and so can the preset one. -/
lemma exists_flowPalette {settings : Settings}
    (h : ∀ texts, settings.palette = some texts → Readable colors texts) :
    ∃ palette, settings.flowPalette colors = .ok palette := by
  unfold Settings.flowPalette
  cases hpalette : settings.palette with
  | none => exact ⟨_, rfl⟩
  | some texts =>
    obtain ⟨found, hfound⟩ := exists_mapM_parse (h texts hpalette)
    refine ⟨⟨found⟩, ?_⟩
    simp only [Palette.ofTexts, hfound]

end Palettes

/-! ### Actions one after the other -/

section Perform

variable {σ α β : Type} {action : ExceptT Error (StateM σ) α}
  {next : α → ExceptT Error (StateM σ) β} {s after : σ}

/-- An action that succeeds is followed by the next one. -/
lemma perform_bind_ok {a : α} (h : perform action s = (.ok a, after)) :
    perform (action >>= next) s = perform (next a) after := by
  unfold perform at h ⊢
  rw [ExceptT.run_bind, StateT.run_bind, h]
  rfl

/-- An action that fails is the last one. -/
lemma perform_bind_error {e : Error} (h : perform action s = (.error e, after)) :
    perform (action >>= next) s = (.error e, after) := by
  unfold perform at h ⊢
  rw [ExceptT.run_bind, StateT.run_bind, h]
  rfl

/-- A result that is known already needs no action. -/
lemma perform_liftM (r : Except Error α) (s : σ) :
    perform (liftM r : ExceptT Error (StateM σ) α) s = (r, s) := by
  cases r <;> rfl

end Perform

/-! ### The program keeps to the stages -/

section Program

variable {κ σ : Type} {formats : Formats κ} {store : Store σ} {s : σ}
  {given shared : Option String} {arguments : Arguments}

/-- What is written as a text is read as the same text. -/
lemma decode_encode (source : String) : decode (encode source) = .ok source := by
  have hbytes : (⟨(encode source).toArray⟩ : ByteArray) = source.toByteArray := by
    unfold encode
    rw [ByteArray.toList, Json.toList_loop]
    rfl
  rw [decode, hbytes, String.fromUTF8?, dif_pos source.isValidUTF8]
  rfl

/-- The text of a file that holds a text. -/
lemma text_of_read {path source : String} (h : store.read s path = .ok (encode source)) :
    store.text s path = .ok source := by
  unfold Store.text
  rw [h]
  exact decode_encode source

/-- Reading a text only looks at the file. -/
lemma perform_readText (store : Store σ) (s : σ) (path : String) :
    perform (readText store.disk path) s = (store.text s path, s) := by
  have hread : perform (liftM (store.disk.read path) : ExceptT Error (StateM σ) _) s =
      (.ok (store.read s path), s) := rfl
  unfold readText Store.text
  rw [perform_bind_ok hread]
  cases store.read s path with
  | ok content => exact perform_liftM _ s
  | error fault => rfl

/-- Selecting the settings only looks at which files are there. -/
lemma run_selectSettings (store : Store σ) (s : σ) (given shared : Option String) :
    StateT.run (selectSettings store.disk given shared) s =
      (store.settingsPath? s given shared, s) := by
  unfold Store.settingsPath?
  cases given with
  | some path => rfl
  | none =>
    have hlooks : ∀ path, store.disk.holds path = fun s => pure (store.holds s path, s) :=
      fun _ => rfl
    simp only [selectSettings, bind, StateT.bind, StateT.run, hlooks]
    cases hlocal : store.holds s localSettings with
    | true => rfl
    | false =>
      cases shared with
      | none => rfl
      | some path =>
        simp only [Option.filter, pure, bind, StateT.bind, Bool.false_eq_true, if_false]
        cases store.holds s path with
        | true => rfl
        | false => rfl

/-- Looking whether a file is there changes nothing. -/
lemma perform_holds (store : Store σ) (s : σ) (path : String) :
    perform (liftM (store.disk.holds path) : ExceptT Error (StateM σ) Bool) s =
      (.ok (store.holds s path), s) := rfl

/-- Settings are not read from a file that is not there. -/
lemma perform_readSettings_missing {path : String} (hholds : store.holds s path = false) :
    perform (readSettings formats store.disk path) s =
      (.error (.settings (.missing path)), s) := by
  unfold readSettings
  rw [perform_bind_ok (perform_holds store s path), hholds]
  rfl

/-- Reading settings from a file that is there goes by its text. -/
lemma perform_readSettings {path : String} (hholds : store.holds s path = true) :
    perform (readSettings formats store.disk path) s =
      (store.text s path >>= settingsOf formats, s) := by
  unfold readSettings
  rw [perform_bind_ok (perform_holds store s path), hholds, if_pos rfl]
  cases htext : store.text s path with
  | error e => exact perform_bind_error (htext ▸ perform_readText store s path)
  | ok source =>
    rw [perform_bind_ok (htext ▸ perform_readText store s path)]
    exact perform_liftM _ s

/-- Loading the settings only looks at files, and comes to what the file that counts says. -/
lemma Loads.perform_loadSettings {result : Except Error Settings}
    (h : Loads formats store s (store.settingsPath? s given shared) result) :
    perform (loadSettings formats store.disk given shared) s = (result, s) := by
  have hselect : perform (liftM (selectSettings store.disk given shared) :
      ExceptT Error (StateM σ) _) s = (.ok (store.settingsPath? s given shared), s) := by
    unfold perform
    rw [ExceptT.run_liftM, StateT.run_map, run_selectSettings]
    rfl
  unfold loadSettings
  rw [perform_bind_ok hselect]
  generalize store.settingsPath? s given shared = path? at h
  cases h with
  | unset => rfl
  | missing hholds => exact perform_readSettings_missing hholds
  | unread hholds htext =>
    rw [perform_readSettings hholds, htext]
    rfl
  | unparsed hholds htext hvalue =>
    rw [perform_readSettings hholds, htext]
    simp only [bind, Except.bind, settingsOf, hvalue]
  | invalid hholds htext hvalue hpalette hbad =>
    rw [perform_readSettings hholds, htext]
    simp only [bind, Except.bind, settingsOf, hvalue, Settings.flowPalette, hpalette,
      hbad.ofTexts_eq]
  | loaded hholds htext hvalue hpalette =>
    obtain ⟨palette, hpalette⟩ := exists_flowPalette hpalette
    rw [perform_readSettings hholds, htext]
    simp only [bind, Except.bind, settingsOf, hvalue, hpalette]

/-- Something comes of every file of settings, and of none. -/
lemma exists_loads (formats : Formats κ) (store : Store σ) (s : σ) (path? : Option String) :
    ∃ result, Loads formats store s path? result := by
  cases path? with
  | none => exact ⟨_, .unset⟩
  | some path =>
    cases hholds : store.holds s path with
    | false => exact ⟨_, .missing hholds⟩
    | true =>
      cases htext : store.text s path with
      | error e => exact ⟨_, .unread hholds htext⟩
      | ok source =>
        cases hvalue : (formats.document source).bind Settings.ofValue? with
        | none => exact ⟨_, .unparsed hholds htext hvalue⟩
        | some settings =>
          cases hpalette : settings.palette with
          | none =>
            refine ⟨_, .loaded hholds htext hvalue fun texts h => ?_⟩
            rw [hpalette] at h
            cases h
          | some texts =>
            rcases readable_or_firstBad formats.colors texts with hall | ⟨bad, reason, hbad⟩
            · refine ⟨_, .loaded hholds htext hvalue fun texts' h => ?_⟩
              rw [hpalette] at h
              cases h
              exact hall
            · exact ⟨_, .invalid hholds htext hvalue hpalette hbad⟩

/-- The palette of settings that were loaded can be read; so can the palette of the default
settings. -/
lemma Loads.exists_palette {path? : Option String} {settings : Settings}
    (h : Loads formats store s path? (.ok settings)) :
    ∃ palette, settings.flowPalette formats.colors = .ok palette := by
  cases h with
  | unset => exact exists_flowPalette fun _ h => nomatch h
  | loaded _ _ _ hpalette => exact exists_flowPalette hpalette

/-- Under settings whose palette can be read, every plot is rendered. -/
lemma exists_render {colors : ColorFormat κ} {settings : Settings} {palette : Palette κ}
    (h : settings.flowPalette colors = .ok palette) (plot : Plot) :
    ∃ json, (Chart.render colors settings plot).value = .ok json := by
  have hdiagram : ∃ d, (Chart.diagram colors settings plot).value = .ok d := by
    unfold Chart.diagram
    rw [h]
    exact ⟨_, rfl⟩
  obtain ⟨d, hd⟩ := hdiagram
  refine ⟨(d.toJson colors).pretty, ?_⟩
  simp only [Chart.render, bind, Logged.andThen, hd]
  rfl

/-- The document of an input that is no plot. -/
lemma document_of_parse_error {settings : Settings} {source : String} {e : Error}
    (h : (Chart.parse formats.numbers source).value = .error e) :
    document formats settings source = .error e := by
  simp only [document, bind, Except.bind, h]

/-- The document of an input that is a plot. -/
lemma document_of_parse_ok {settings : Settings} {source json : String} {plot : Plot}
    (hplot : (Chart.parse formats.numbers source).value = .ok plot)
    (hjson : (Chart.render formats.colors settings plot).value = .ok json) :
    document formats settings source = .ok json := by
  simp only [document, bind, Except.bind, hplot, hjson]

/-- A write that succeeds leaves the files that it wrote. -/
lemma perform_write_ok {path : String} {content : List UInt8} {after : σ}
    (h : store.write s path content = .ok after) :
    perform (liftM (store.disk.write path content) : ExceptT Error (StateM σ) _) s =
      (.ok (.ok ()), after) := by
  unfold perform
  rw [ExceptT.run_liftM, StateT.run_map]
  simp only [Store.disk, StateT.run_bind, StateT.run_get, pure_bind, h]
  rfl

/-- A write that fails leaves the files as they were. -/
lemma perform_write_error {path : String} {content : List UInt8} {fault : FileFault}
    (h : store.write s path content = .error fault) :
    perform (liftM (store.disk.write path content) : ExceptT Error (StateM σ) _) s =
      (.ok (.error fault), s) := by
  unfold perform
  rw [ExceptT.run_liftM, StateT.run_map]
  simp only [Store.disk, StateT.run_bind, StateT.run_get, pure_bind, h]
  rfl

/-- A run that has its document ends with the write, and reports how it went. -/
lemma Renders.exists_last {json : String} (h : Renders formats store s shared arguments json) :
    ∃ last : Except FileFault Unit → ExceptT Error (StateM σ) Unit,
      outcome formats store s shared arguments =
        perform (liftM (store.disk.write arguments.output (encode json)) >>= last) s ∧
      last (.ok ()) = pure () ∧ ∀ fault, last (.error fault) = throw (.file fault) := by
  obtain ⟨hsettings, htext, hplot, hjson⟩ := h
  unfold outcome run
  rw [perform_bind_ok hsettings.perform_loadSettings,
    perform_bind_ok (htext ▸ perform_readText store s arguments.input),
    document_of_parse_ok hplot hjson, perform_bind_ok (perform_liftM _ s)]
  exact ⟨_, rfl, rfl, fun _ => rfl⟩

/-- A run that has its document and can write it succeeds. -/
lemma Renders.outcome_eq {json : String} {after : σ}
    (h : Renders formats store s shared arguments json)
    (hwrite : store.write s arguments.output (encode json) = .ok after) :
    outcome formats store s shared arguments = (.ok (), after) := by
  obtain ⟨last, houtcome, hlast, -⟩ := h.exists_last
  rw [houtcome, perform_bind_ok (perform_write_ok hwrite), hlast]
  rfl

/-- A run fails with each of its errors, and then leaves the files as they were. -/
lemma Fails.outcome_eq {e : Error} (h : Fails formats store s shared arguments e) :
    outcome formats store s shared arguments = (.error e, s) := by
  cases h with
  | settings hsettings => exact perform_bind_error hsettings.perform_loadSettings
  | input hsettings htext =>
    unfold outcome run
    rw [perform_bind_ok hsettings.perform_loadSettings]
    exact perform_bind_error (htext ▸ perform_readText store s arguments.input)
  | plot hsettings htext hplot =>
    unfold outcome run
    rw [perform_bind_ok hsettings.perform_loadSettings,
      perform_bind_ok (htext ▸ perform_readText store s arguments.input),
      document_of_parse_error hplot]
    exact perform_bind_error (perform_liftM _ s)
  | output hrenders hwrite =>
    obtain ⟨last, houtcome, -, hlast⟩ := hrenders.exists_last
    rw [houtcome, perform_bind_ok (perform_write_error hwrite), hlast]
    rfl

/-- A run either has one of its errors, or it has a document that it can write. -/
lemma fails_or_renders (formats : Formats κ) (store : Store σ) (s : σ) (shared : Option String)
    (arguments : Arguments) :
    (∃ e, Fails formats store s shared arguments e) ∨
      ∃ json after, Renders formats store s shared arguments json ∧
        store.write s arguments.output (encode json) = .ok after := by
  obtain ⟨result, hsettings⟩ :=
    exists_loads formats store s (store.settingsPath? s arguments.settings shared)
  cases result with
  | error e => exact .inl ⟨e, .settings hsettings⟩
  | ok settings =>
    cases htext : store.text s arguments.input with
    | error e => exact .inl ⟨e, .input hsettings htext⟩
    | ok source =>
      cases hplot : (Chart.parse formats.numbers source).value with
      | error e => exact .inl ⟨e, .plot hsettings htext hplot⟩
      | ok plot =>
        obtain ⟨palette, hpalette⟩ := hsettings.exists_palette
        obtain ⟨json, hjson⟩ := exists_render hpalette plot
        have hrenders : Renders formats store s shared arguments json :=
          .of hsettings htext hplot hjson
        cases hwrite : store.write s arguments.output (encode json) with
        | error fault => exact .inl ⟨.file fault, .output hrenders hwrite⟩
        | ok after => exact .inr ⟨json, after, hrenders, hwrite⟩

/-- A run fails with nothing but its errors. -/
lemma fails_of_outcome {e : Error}
    (h : (outcome formats store s shared arguments).1 = .error e) :
    Fails formats store s shared arguments e := by
  rcases fails_or_renders formats store s shared arguments with
    ⟨e', hfails⟩ | ⟨json, after, hrenders, hwrite⟩
  · rw [hfails.outcome_eq] at h
    cases h
    exact hfails
  · rw [hrenders.outcome_eq hwrite] at h
    cases h

/-- A run that succeeds has a document. -/
lemma exists_renders_of_outcome (h : (outcome formats store s shared arguments).1 = .ok ()) :
    ∃ json, Renders formats store s shared arguments json := by
  rcases fails_or_renders formats store s shared arguments with
    ⟨e', hfails⟩ | ⟨json, after, hrenders, -⟩
  · rw [hfails.outcome_eq] at h
    cases h
  · exact ⟨json, hrenders⟩

/-- A run that succeeds has written its document. -/
lemma Renders.write_eq {json : String} (hrenders : Renders formats store s shared arguments json)
    (h : (outcome formats store s shared arguments).1 = .ok ()) :
    store.write s arguments.output (encode json) =
      .ok (outcome formats store s shared arguments).2 := by
  cases hwrite : store.write s arguments.output (encode json) with
  | error fault =>
    rw [(Fails.output hrenders hwrite).outcome_eq] at h
    cases h
  | ok after => rw [hrenders.outcome_eq hwrite]

end Program

/-! ### Files that do not count -/

section Indifference

variable {κ σ : Type} {formats : Formats κ} {store : Store σ} {s s' : σ}
  {shared : Option String} {arguments : Arguments}

/-- Two states of the files that differ at most in files that do not count: the same file of
settings is selected, this file and the input hold the same, and the output can be written in both
states or fails for the same reason. -/
structure Alike (store : Store σ) (shared : Option String) (arguments : Arguments) (s s' : σ) :
    Prop where
  selected : store.settingsPath? s' arguments.settings shared =
    store.settingsPath? s arguments.settings shared
  holds : ∀ path, store.settingsPath? s arguments.settings shared = some path →
    store.holds s' path = store.holds s path
  settings : ∀ path, store.settingsPath? s arguments.settings shared = some path →
    store.read s' path = store.read s path
  input : store.read s' arguments.input = store.read s arguments.input
  output : ∀ content fault, store.write s' arguments.output content = .error fault ↔
    store.write s arguments.output content = .error fault

/-- It does not matter which of the two states comes first. -/
lemma Alike.symm (h : Alike store shared arguments s s') : Alike store shared arguments s' s where
  selected := h.selected.symm
  holds path hpath := (h.holds path (h.selected ▸ hpath)).symm
  settings path hpath := (h.settings path (h.selected ▸ hpath)).symm
  input := h.input.symm
  output content fault := (h.output content fault).symm

/-- A file that holds the same has the same text. -/
lemma text_congr {path : String} (h : store.read s' path = store.read s path) :
    store.text s' path = store.text s path := by
  unfold Store.text
  rw [h]

/-- What comes of a file of settings depends on whether it is there and on its text. -/
lemma Loads.congr {path? : Option String} {result : Except Error Settings}
    (hholds : ∀ path, path? = some path → store.holds s' path = store.holds s path)
    (htext : ∀ path, path? = some path → store.text s' path = store.text s path)
    (h : Loads formats store s path? result) : Loads formats store s' path? result := by
  cases h with
  | unset => exact .unset
  | missing h => exact .missing ((hholds _ rfl).trans h)
  | unread h ht => exact .unread ((hholds _ rfl).trans h) ((htext _ rfl).trans ht)
  | unparsed h ht hv => exact .unparsed ((hholds _ rfl).trans h) ((htext _ rfl).trans ht) hv
  | invalid h ht hv hp hb =>
    exact .invalid ((hholds _ rfl).trans h) ((htext _ rfl).trans ht) hv hp hb
  | loaded h ht hv hp => exact .loaded ((hholds _ rfl).trans h) ((htext _ rfl).trans ht) hv hp

/-- What comes of the selected settings does not depend on other files. -/
lemma Alike.loads (h : Alike store shared arguments s s') {result : Except Error Settings}
    (hloads : Loads formats store s (store.settingsPath? s arguments.settings shared) result) :
    Loads formats store s' (store.settingsPath? s' arguments.settings shared) result := by
  rw [h.selected]
  exact hloads.congr h.holds fun path hpath => text_congr (h.settings path hpath)

/-- The document of a run does not depend on other files. -/
lemma Alike.renders (h : Alike store shared arguments s s') {json : String}
    (hrenders : Renders formats store s shared arguments json) :
    Renders formats store s' shared arguments json := by
  obtain ⟨hsettings, hinput, hplot, hjson⟩ := hrenders
  exact .of (h.loads hsettings) ((text_congr h.input).trans hinput) hplot hjson

/-- The errors of a run do not depend on other files. -/
lemma Alike.fails (h : Alike store shared arguments s s') {e : Error}
    (hfails : Fails formats store s shared arguments e) :
    Fails formats store s' shared arguments e := by
  cases hfails with
  | settings hsettings => exact .settings (h.loads hsettings)
  | input hsettings hinput =>
    exact .input (h.loads hsettings) ((text_congr h.input).trans hinput)
  | plot hsettings hinput hplot =>
    exact .plot (h.loads hsettings) ((text_congr h.input).trans hinput) hplot
  | output hrenders hwrite => exact .output (h.renders hrenders) ((h.output _ _).mpr hwrite)

/-- What a run reports does not depend on other files. -/
lemma Alike.outcome_eq (h : Alike store shared arguments s s') :
    (outcome formats store s' shared arguments).1 =
      (outcome formats store s shared arguments).1 := by
  rcases fails_or_renders formats store s shared arguments with
    ⟨e, hfails⟩ | ⟨json, after, hrenders, hwrite⟩
  · rw [hfails.outcome_eq, (h.fails hfails).outcome_eq]
  · cases hwrite' : store.write s' arguments.output (encode json) with
    | ok after' => rw [hrenders.outcome_eq hwrite, (h.renders hrenders).outcome_eq hwrite']
    | error fault =>
      have hfault := (h.output _ _).mp hwrite'
      rw [hwrite] at hfault
      cases hfault

/-- In a file system, replacing the content of a file that is neither the selected file of settings
nor the input makes no difference. -/
lemma FileSystem.alike_set_file {fs : FileSystem} {location : Location} {old : List UInt8}
    (hfile : fs.get? location = some (.file old))
    (hsettings : ∀ path, FileSystem.store.settingsPath? fs arguments.settings shared = some path →
      fs.locate path ≠ .ok location)
    (hinput : fs.locate arguments.input ≠ .ok location) (content : List UInt8) :
    Alike FileSystem.store shared arguments fs (fs.set location (.file content)) where
  selected := by
    have hholds : FileSystem.store.holds (fs.set location (.file content)) =
        FileSystem.store.holds fs := funext (FileSystem.holds_set_file hfile content)
    unfold Store.settingsPath?
    rw [hholds]
  holds path _ := FileSystem.holds_set_file hfile content path
  settings path hpath := FileSystem.read_set_file hfile content (hsettings path hpath)
  input := FileSystem.read_set_file hfile content hinput
  output written fault := FileSystem.fault_write_set_file hfile content written _ fault

end Indifference

/-- A run does all of its work or none of it, under exactly one file of settings.

It fails exactly with the errors of `Fails`, in their order, and then the files are as they were.
If it succeeds, the input has a document under the selected settings, and the only change is that
the output path holds this document.  Once the settings are loaded every plot is rendered.  Files
other than the selected settings and the input, such as settings that come later in the selection,
may hold anything or be missing: neither what the run reports nor the document depends on them. -/
theorem run_all_or_nothing {κ σ : Type} (formats : Formats κ) (store : Store σ)
    (same : σ → String → String → Prop) (hstore : store.Lawful same) (s : σ)
    (shared : Option String) (arguments : Arguments) :
    (∀ e, (outcome formats store s shared arguments).1 = .error e ↔
      Fails formats store s shared arguments e) ∧
    (∀ e, (outcome formats store s shared arguments).1 = .error e →
      (outcome formats store s shared arguments).2 = s) ∧
    ((outcome formats store s shared arguments).1 = .ok () →
      (∃ json, Renders formats store s shared arguments json) ∧
      ∀ json, Renders formats store s shared arguments json →
        store.write s arguments.output (encode json) =
            .ok (outcome formats store s shared arguments).2 ∧
          store.text (outcome formats store s shared arguments).2 arguments.output = .ok json ∧
          store.Replaces same s arguments.output (encode json)
            (outcome formats store s shared arguments).2) ∧
    (∀ settings,
      Loads formats store s (store.settingsPath? s arguments.settings shared) (.ok settings) →
      ∀ plot, ∃ json, (Chart.render formats.colors settings plot).value = .ok json) ∧
    ∀ s', Alike store shared arguments s s' →
      (outcome formats store s' shared arguments).1 =
          (outcome formats store s shared arguments).1 ∧
        ∀ json, Renders formats store s' shared arguments json ↔
          Renders formats store s shared arguments json := by
  refine ⟨?_, ?_, ?_, ?_, ?_⟩
  · intro e
    exact ⟨fails_of_outcome, fun hfails => congrArg Prod.fst hfails.outcome_eq⟩
  · intro e h
    exact congrArg Prod.snd (fails_of_outcome h).outcome_eq
  · intro h
    refine ⟨exists_renders_of_outcome h, fun json hrenders => ?_⟩
    have hwrite := hrenders.write_eq h
    have hreplaces := hstore hwrite
    exact ⟨hwrite, text_of_read (hreplaces.read_same _ hreplaces.same_self), hreplaces⟩
  · intro settings hsettings plot
    obtain ⟨palette, hpalette⟩ := hsettings.exists_palette
    exact exists_render hpalette plot
  · intro s' halike
    exact ⟨halike.outcome_eq, fun json => ⟨halike.symm.renders, halike.renders⟩⟩

/-- An empty plot in the working directory, and settings for all directories. -/
def sharedFiles : FileSystem where
  entries := [(["home"], .directory), (["home", "plot.json"], .file (encode "\x7b\x7d")),
    (["etc"], .directory), (["etc", "config.toml"], .file (encode "[layout]\nnode_width = 200\n"))]
  working := ["home"]

/-- The same files with local settings, whose palette has a text that is no colour. -/
def localFiles : FileSystem where
  entries := (["home", "dialograph"], .directory) :: (["home", "dialograph", "config.toml"],
    .file (encode "[style]\npalette = [\"red\", \"no\"]\n")) :: sharedFiles.entries
  working := sharedFiles.working

/-- The plot is its own output, by another path. -/
def inPlace (settings : Option String) : Arguments where
  input := "plot.json"
  output := "/home/plot.json"
  settings := settings

/-- What comes of a run in place. -/
abbrev outcomeInPlace (fs : FileSystem) (settings : Option String) :
    Except Error Unit × FileSystem :=
  outcome Formats.standard FileSystem.store fs (some "/etc/config.toml") (inPlace settings)

/-- The document of an empty plot with boxes of a given width. -/
def blankDocument (width : String) : String :=
  "\x7b\n  \"nodes\": [],\n  \"edges\": [],\n  \"nodeSize\": \x7b\n    \"width\": " ++ width ++
    ",\n    \"height\": 69.0\n  \x7d\n\x7d"

/-- The empty plot is rendered under the settings for all directories. -/
lemma renders_sharedFiles : Renders Formats.standard FileSystem.store sharedFiles
    (some "/etc/config.toml") (inPlace none) (blankDocument "200.0") := by
  have hread : ((Toml.parse "[layout]\nnode_width = 200\n").bind Settings.ofValue?).map (fun s =>
      (s.palette, (Chart.render Color.format s {}).value.toOption)) =
      some (none, some (blankDocument "200.0")) := by
    decide +kernel
  obtain ⟨settings, hvalue, hrest⟩ := Option.map_eq_some_iff.mp hread
  obtain ⟨hpalette, hjson⟩ := Prod.mk.inj hrest
  have hrender : (Chart.render Color.format settings {}).value = .ok (blankDocument "200.0") := by
    cases hvalue : (Chart.render Color.format settings {}).value with
    | error e =>
      rw [hvalue] at hjson
      cases hjson
    | ok json =>
      rw [hvalue] at hjson
      exact congrArg _ (Option.some.inj hjson)
  refine .of (.loaded (by decide) (text_of_read rfl) hvalue ?_) (text_of_read rfl) rfl hrender
  intro texts h
  rw [hpalette] at h
  cases h

/-- The palette of the local settings is refused. -/
lemma fails_localFiles : Fails Formats.standard FileSystem.store localFiles
    (some "/etc/config.toml") (inPlace none) (.settings (.invalid
      "Invalid palette color in config: invalid color `no`: unknown color identifier")) := by
  have hread : ((Toml.parse "[style]\npalette = [\"red\", \"no\"]\n").bind
      Settings.ofValue?).map (·.palette) = some (some ["red", "no"]) := by
    decide +kernel
  obtain ⟨settings, hvalue, hpalette⟩ := Option.map_eq_some_iff.mp hread
  have hred : Readable Color.format ["red"] :=
    List.forall_mem_singleton.mpr ⟨.named "red", rfl⟩
  have hbad : FirstBad Color.format (["red"] ++ "no" :: []) "no" "unknown color identifier" :=
    .of hred rfl
  have hmessage : "Invalid palette color in config: invalid color `no`: unknown color identifier" =
      "Invalid palette color in config: " ++
        ("invalid color `" ++ "no" ++ "`: " ++ "unknown color identifier") := by
    decide
  rw [hmessage]
  exact .settings (.invalid (by decide) (text_of_read rfl) hvalue hpalette hbad)

/-- Three runs on an empty plot that is its own output.  The settings for all directories are
selected if no others are there, and the plot is replaced by its document, under either path; the
settings stay as they are.  Local settings are selected before them; their palette is refused, and nothing changes.  If settings are given that are
not there, the local ones may hold anything. -/
theorem run_all_or_nothing_in_place :
    ((outcomeInPlace sharedFiles none).1 = .ok () ∧
      FileSystem.store.text (outcomeInPlace sharedFiles none).2 "/home/plot.json" =
        .ok (blankDocument "200.0") ∧
      FileSystem.store.read (outcomeInPlace sharedFiles none).2 "plot.json" =
        .ok (encode (blankDocument "200.0")) ∧
      FileSystem.store.read (outcomeInPlace sharedFiles none).2 "/etc/config.toml" =
        .ok (encode "[layout]\nnode_width = 200\n")) ∧
    outcomeInPlace localFiles none =
      (.error (.settings (.invalid
        "Invalid palette color in config: invalid color `no`: unknown color identifier")),
        localFiles) ∧
    ∀ content, (outcomeInPlace (localFiles.set ["home", "dialograph", "config.toml"]
        (.file content)) (some "own.toml")).1 =
      .error (.settings (.missing "own.toml")) := by
  refine ⟨?_, ?_, ?_⟩
  · have hok : (outcomeInPlace sharedFiles none).1 = .ok () :=
      congrArg Prod.fst (renders_sharedFiles.outcome_eq rfl)
    obtain ⟨-, -, hafter, -, -⟩ := run_all_or_nothing Formats.standard FileSystem.store
      FileSystem.Same FileSystem.lawful sharedFiles (some "/etc/config.toml") (inPlace none)
    obtain ⟨-, htext, hreplaces⟩ := (hafter hok).2 _ renders_sharedFiles
    have houtput : sharedFiles.locate "/home/plot.json" = .ok ["home", "plot.json"] := by decide
    have hinput : sharedFiles.locate "plot.json" = .ok ["home", "plot.json"] := by decide
    have hsettings : sharedFiles.locate "/etc/config.toml" = .ok ["etc", "config.toml"] := by decide
    have hother : ¬ sharedFiles.Same "/home/plot.json" "/etc/config.toml" := by
      rintro ⟨location, hlocation, hlocation'⟩
      rw [houtput, ← hlocation', hsettings] at hlocation
      exact absurd hlocation (by decide)
    exact ⟨hok, htext, hreplaces.read_same _ ⟨_, houtput, hinput⟩,
      (hreplaces.read_other _ hother _).mpr rfl⟩
  · obtain ⟨herror, hunchanged, -⟩ := run_all_or_nothing Formats.standard FileSystem.store
      FileSystem.Same FileSystem.lawful localFiles (some "/etc/config.toml") (inPlace none)
    have hreport := (herror _).mpr fails_localFiles
    exact Prod.ext hreport (hunchanged _ hreport)
  · intro content
    obtain ⟨herror, -, -, -, hothers⟩ := run_all_or_nothing Formats.standard FileSystem.store
      FileSystem.Same FileSystem.lawful localFiles (some "/etc/config.toml")
      (inPlace (some "own.toml"))
    have hfile : localFiles.get? ["home", "dialograph", "config.toml"] =
        some (.file (encode "[style]\npalette = [\"red\", \"no\"]\n")) := rfl
    have hgiven : ∀ path, FileSystem.store.settingsPath? localFiles (some "own.toml")
        (some "/etc/config.toml") = some path →
        localFiles.locate path ≠ .ok ["home", "dialograph", "config.toml"] := by
      intro path hpath
      cases hpath
      decide
    have halike : Alike FileSystem.store (some "/etc/config.toml") (inPlace (some "own.toml"))
        localFiles (localFiles.set ["home", "dialograph", "config.toml"] (.file content)) :=
      FileSystem.alike_set_file hfile hgiven (by decide) content
    rw [(hothers _ halike).1]
    exact (herror _).mpr (.settings (.missing (by decide)))

end DialogChart.CommandLine
