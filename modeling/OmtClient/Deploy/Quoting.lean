import OmtClient.Deploy.Ops
import OmtClient.Lib.Shell

/-!
# What a shell makes of a command

The commands of `crates/omt-deploy/src/ops.rs`, and the one of an upload without SFTP from
`src/ssh/channel.rs`, as the words and operators into which the shells of the Raspberry Pi cut them: the
login shell, and the one that gets a script as an argument. Whatever values are in them, they are cut in the
same way.

1. `tokens_privileged`: the prefix of a privileged command is its first words.
2. `quoting_exact`: the words of every command that has a value in it.
-/

namespace OmtClient.Deploy

open OmtClient.Lib OmtClient.Common Shell

/-- `shell_upload_command`. -/
def shellUploadCommand (remote : String) : String := "umask 077 && cat > " ++ shellQuote remote

/-! ## What is asked -/

/-- The words and operators of a text. -/
def shellTokens (text : String) : Option (List Token) := tokens (chars text.toList)

/-- The words of a text that is one command, nothing of which is expanded. -/
def shellWords (text : String) : Option (List String) := (fields (chars text.toList)).map fun ws => ws.map String.ofList

def sudoWords (c : Connection) : List String :=
  if c.username = "root" then [] else if c.sudoPassword.nonempty then ["sudo", "-S", "-p", ""] else ["sudo", "-n"]

/-- Words without quotes, and one that is quoted. -/
def bares (ws : List String) : List Token := ws.map fun w => bare w.toList

def value (s : String) : List Token := [literal s.toList]

/-- A word in double quotes that is expanded. -/
def expanded (s : String) : List Token := [.word (s.toList.map .active)]

def op (s : String) : List Token := [.op s.toList]

/-- Running a script and removing it. -/
def scriptTokens (remote : String) : List Token :=
  bares ["/bin/sh"] ++ value remote ++ op ";" ++ bares ["rc=$?"] ++ op ";" ++ bares ["rm", "-f", "--"] ++ value remote ++ op ";" ++
    bares ["exit", "$rc"]

/-- What the shells make of the commands. -/
structure Quoted (site : Site) (c : Connection) : Prop where
  argv : ∀ argv, shellWords (privilegedArgvCommand c argv) = some (sudoWords c ++ argv)
  /-- `set_hostname`. -/
  rename : ∀ remote, shellWords (privilegedStdinCommand c ("sh -c " ++ shellQuote (sshRenameCommand (shellQuote remote)))) =
    some (sudoWords c ++ ["sh", "-c", sshRenameCommand (shellQuote remote)])
  renameScript : ∀ remote, shellTokens (sshRenameCommand (shellQuote remote)) = some (scriptTokens remote)
  /-- `apply_wifi`. -/
  wifi : ∀ settings ssidHex marker, shellWords (privilegedStdinCommand c (wifiCommand site settings ssidHex marker)) =
    some (sudoWords c ++ ["sh", "-eu", "-c", site.wifiScript, "sh", ssidHex, yesNo settings.connect,
      yesNo settings.preserveExistingProfiles, marker, settings.ssid])
  upload : ∀ remote, shellTokens (shellUploadCommand remote) =
    some (bares ["umask", "077"] ++ op "&&" ++ bares ["cat"] ++ op ">" ++ value remote)
  /-- `deploy`, its last command first. -/
  install : ∀ directory, shellTokens (installCommand c directory) =
    some (bares ["chmod", "+x"] ++ executablePaths.flatMap (fun path => value (directory ++ "/" ++ path)) ++ op "&&" ++
      bares (sudoWords c ++ ["sh", "-c"]) ++ value ("printf 'n\\n' | " ++ shellQuote (directory ++ "/deploy/host/install.sh")))
  installScript : ∀ installer, shellTokens ("printf 'n\\n' | " ++ shellQuote installer) =
    some (bares ["printf"] ++ value "n\\n" ++ op "|" ++ value installer)
  setup : ∀ remote, shellTokens (setupCommand (shellQuote remote)) = some (scriptTokens remote)
  bootstrap : ∀ remote, ∀ e ∈ [("", []), ("sudo -S -p ''", ["sudo", "-S", "-p", ""]), ("doas", ["doas"])],
    shellTokens (e.1 ++ " /bin/sh " ++ shellQuote remote ++ scriptEnd (shellQuote remote)) = some (bares e.2 ++ scriptTokens remote)
  substitute : ∀ remote, shellTokens ("stty -echo; printf '" ++ bootstrapPasswordReady ++ "\\n'; su -c " ++
      shellQuote ("/bin/sh " ++ shellQuote remote) ++ "; rc=$?; stty echo; rm -f -- " ++ shellQuote remote ++ "; exit $rc") =
    some (bares ["stty", "-echo"] ++ op ";" ++ bares ["printf"] ++ value (bootstrapPasswordReady ++ "\\n") ++ op ";" ++
      bares ["su", "-c"] ++ value ("/bin/sh " ++ shellQuote remote) ++ op ";" ++ bares ["rc=$?"] ++ op ";" ++ bares ["stty", "echo"] ++
      op ";" ++ bares ["rm", "-f", "--"] ++ value remote ++ op ";" ++ bares ["exit", "$rc"])
  substituteScript : ∀ remote, shellWords ("/bin/sh " ++ shellQuote remote) = some ["/bin/sh", remote]
  directory : ∀ directory,
    shellTokens (privilegedCommand c ("install -d -m 755 -o \"$(id -u)\" -g \"$(id -g)\" " ++ shellQuote directory)) =
    some (bares (sudoWords c) ++ (bares ["install", "-d", "-m", "755", "-o"] ++ expanded "$(id -u)" ++ bares ["-g"] ++
      expanded "$(id -g)" ++ value directory))
  recover : ∀ directory, shellTokens (recoverCommand directory) =
    some (bares ["if", "[", "-x"] ++ value (directory ++ "/deploy-transaction.sh") ++ bares ["]"] ++ op "&&" ++ bares ["[", "-f"] ++
      value (directory ++ "/deploy-artifacts.txt") ++ bares ["]"] ++ op ";" ++ bares ["then"] ++
      value (directory ++ "/deploy-transaction.sh") ++ bares ["recover"] ++ value directory ++
      value (directory ++ "/deploy-artifacts.txt") ++ op ";" ++ bares ["fi"] ++ op ";" ++ bares ["if", "[", "-x"] ++
      value (directory ++ "/deploy/transaction.sh") ++ bares ["]"] ++ op ";" ++ bares ["then"] ++
      value (directory ++ "/deploy/transaction.sh") ++ bares ["recover"] ++ value directory ++ op ";" ++ bares ["fi"])
  staging : ∀ root stage, shellTokens (stagingCommand (shellQuote root) (shellQuote stage)) =
    some (bares ["if", "[", "-L"] ++ value root ++ bares ["]"] ++ op "||" ++ bares ["\x7b", "[", "-e"] ++ value root ++ bares ["]"] ++
      op "&&" ++ bares ["[", "!", "-d"] ++ value root ++ bares ["]"] ++ op ";" ++ bares ["\x7d"] ++ op ";" ++
      bares ["then", "exit", "14"] ++ op ";" ++ bares ["fi"] ++ op ";" ++ bares ["install", "-d", "-m", "700", "--"] ++ value root ++
      op ";" ++ bares ["mkdir", "--"] ++ value stage)
  parent : ∀ path, shellWords ("mkdir -p -- " ++ shellQuote path) = some ["mkdir", "-p", "--", path]
  checksum : ∀ path, shellWords ("sha256sum -- " ++ shellQuote path) = some ["sha256sum", "--", path]
  promote : ∀ script directory token manifest, shellWords ("bash " ++ shellQuote script ++ " promote " ++ shellQuote directory ++ " " ++
      shellQuote token ++ " " ++ shellQuote manifest) = some ["bash", script, "promote", directory, token, manifest]
  remove : ∀ stage, shellTokens ("if [ -d " ++ shellQuote stage ++ " ] && [ ! -L " ++ shellQuote stage ++ " ]; then find -P " ++
      shellQuote stage ++ " -xdev -depth -delete; fi") =
    some (bares ["if", "[", "-d"] ++ value stage ++ bares ["]"] ++ op "&&" ++ bares ["[", "!", "-L"] ++ value stage ++ bares ["]"] ++
      op ";" ++ bares ["then", "find", "-P"] ++ value stage ++ bares ["-xdev", "-depth", "-delete"] ++ op ";" ++ bares ["fi"])

namespace QuotingLemmas

variable {c : Connection} {ts : List Token} {text command : String} {t : List Sym} {σ : Nat → String}

theorem toList_shellQuote (s : String) : (shellQuote s).toList = quote s.toList := by
  rw [shellQuote, String.toList_ofList]
  rfl

/-- What stands before a privileged command. -/
def leading (c : Connection) : String := if sudoPrefix c = "" then "" else sudoPrefix c ++ " "

theorem privileged_eq (c : Connection) (command : String) : privilegedCommand c command = leading c ++ command := by
  rw [privilegedCommand, leading]
  split
  · rw [String.empty_append]
  · rfl

/-- The prefixes, their words and the words of a script for a shell. -/
theorem sudo_words : (∀ e ∈ [("", []), ("sudo -S -p '' ", ["sudo", "-S", "-p", ""]), ("sudo -n ", ["sudo", "-n"])],
    Shell.run .blank (chars e.1.toList) = some (bares e.2, .blank) ∧ (bares e.2).mapM Token.field = some (e.2.map String.toList) ∧
      (bares e.2).head?.any Token.isReserved = false) ∧
    (bare "sh".toList).isReserved = false ∧ ∀ w ∈ ["sh", "-eu", "-c"], ∀ ch ∈ w.toList, ch ∉ special := by
  decide +kernel

/-- A word that is a hole. -/
def holeTokens (i : Nat) : List Token := [.word [.hole i]]

/-- The template of a command, by its texts and the values that stand quoted behind them. -/
def template : List (String × Nat) → String → List Sym
  | [], last => chars last.toList
  | (text, i) :: parts, last => chars text.toList ++ (.hole i :: template parts last)

/-- How the commands with holes are cut. -/
theorem template_tokens :
    tokens (template [("sh -c ", 0)] "") = some (bares ["sh", "-c"] ++ holeTokens 0) ∧
    tokens (template [("sh -eu -c ", 0), (" sh ", 1), (" ", 2), (" ", 3), (" ", 4), (" ", 5)] "") =
      some (bares ["sh", "-eu", "-c"] ++ (holeTokens 0 ++ (bares ["sh"] ++ (holeTokens 1 ++ (holeTokens 2 ++ (holeTokens 3 ++
        (holeTokens 4 ++ holeTokens 5))))))) ∧
    tokens (template [("umask 077 && cat > ", 0)] "") =
      some (bares ["umask", "077"] ++ op "&&" ++ bares ["cat"] ++ op ">" ++ holeTokens 0) ∧
    Shell.run .blank (template [("chmod +x" ++ " ", 0), (" ", 1), (" ", 2), (" ", 3), (" ", 4), (" ", 5), (" ", 6), (" ", 7),
      (" ", 8)] " && ") = some (bares ["chmod", "+x"] ++ (List.range 9).flatMap holeTokens ++ op "&&", .blank) := by
  decide +kernel

/-- What stands before a privileged command. -/
theorem leading_words (c : Connection) : (leading c, sudoWords c) ∈
    [("", []), ("sudo -S -p '' ", ["sudo", "-S", "-p", ""]), ("sudo -n ", ["sudo", "-n"])] := by
  by_cases hroot : c.username = "root"
  · have hnone : sudoPrefix c = "" := if_pos hroot
    rw [leading, if_pos hnone, sudoWords, if_pos hroot]
    exact List.mem_cons_self
  · cases hpassword : c.sudoPassword.nonempty with
    | true =>
      have hsudo : sudoPrefix c = "sudo -S -p ''" := by rw [sudoPrefix, if_neg hroot, hpassword, if_pos rfl]
      rw [leading, hsudo, sudoWords, if_neg hroot, hpassword, if_pos rfl, if_neg (by decide)]
      exact List.mem_cons_of_mem _ List.mem_cons_self
    | false =>
      have hsudo : sudoPrefix c = "sudo -n" := by rw [sudoPrefix, if_neg hroot, hpassword, if_neg Bool.false_ne_true]
      rw [leading, hsudo, sudoWords, if_neg hroot, hpassword, if_neg Bool.false_ne_true, if_neg (by decide)]
      exact List.mem_cons_of_mem _ (List.mem_cons_of_mem _ List.mem_cons_self)

theorem run_leading (c : Connection) : Shell.run .blank (chars (leading c).toList) = some (bares (sudoWords c), .blank) :=
  (sudo_words.1 _ (leading_words c)).1

/-- The prefix of a privileged command is its first words. -/
theorem tokens_privileged (h : shellTokens command = some ts) :
    shellTokens (privilegedCommand c command) = some (bares (sudoWords c) ++ ts) := by
  rw [shellTokens, tokens] at h
  rw [shellTokens, tokens, privileged_eq, String.toList_append, chars_append, lex_append (run_leading c), h]
  rfl

/-- A command, by its texts and the values that stand quoted behind them. -/
def render (σ : Nat → String) : List (String × Nat) → String → String
  | [], last => last
  | (text, i) :: parts, last => text ++ (shellQuote (σ i) ++ render σ parts last)

theorem render_template (parts : List (String × Nat)) (last : String) :
    chars (render σ parts last).toList = (template parts last).flatMap (Shell.Sym.fill fun i => (σ i).toList) := by
  induction parts with
  | nil => exact (fill_chars _).symm
  | cons part parts ih =>
    obtain ⟨text, i⟩ := part
    rw [render, template, String.toList_append, String.toList_append, chars_append, chars_append, ih, List.flatMap_append,
      List.flatMap_cons, fill_chars, toList_shellQuote, Shell.Sym.fill]

theorem fill_bares (ws : List String) (f : Nat → List Char) : (bares ws).map (Token.fill f) = bares ws := by
  rw [bares, List.map_map]
  exact List.map_congr_left fun w _ => fill_bare _

theorem bares_append (ws ws' : List String) : bares (ws ++ ws') = bares ws ++ bares ws' := List.map_append

theorem fill_expanded (s : String) (f : Nat → List Char) : (expanded s).map (Token.fill f) = expanded s := by
  rw [expanded, List.map_singleton, Token.fill, fillWord, List.flatMap_map]
  exact congrArg (fun w => [Token.word w]) (List.map_eq_flatMap ..).symm

theorem fill_ops (s : String) (f : Nat → List Char) : (op s).map (Token.fill f) = op s := rfl

theorem fill_value (s : String) (f : Nat → List Char) : (value s).map (Token.fill f) = value s :=
  congrArg (fun t => [t]) (fill_literal _)

theorem fill_holes (i : Nat) : (holeTokens i).map (Token.fill fun i => (σ i).toList) = value (σ i) :=
  congrArg (fun t => [t]) (fill_hole i)

/-- A command is cut as its template is. -/
theorem tokens_render {parts : List (String × Nat)} {last : String} {ts' : List Token} (h : tokens (template parts last) = some ts)
    (htext : text = render σ parts last) (hfill : ts.map (Token.fill fun i => (σ i).toList) = ts') : shellTokens text = some ts' := by
  rw [shellTokens, htext, render_template, tokens_fill h, hfill]

/-- A script that is run and removed. -/
theorem script_tokens (before remote : String) (ws : List String)
    (h : tokens (template [(before ++ "/bin/sh ", 0), ("; rc=$?; rm -f -- ", 0)] "; exit $rc") =
      some (bares ws ++ (bares ["/bin/sh"] ++ holeTokens 0 ++ op ";" ++ bares ["rc=$?"] ++ op ";" ++ bares ["rm", "-f", "--"] ++
        holeTokens 0 ++ op ";" ++ bares ["exit", "$rc"]))) :
    shellTokens (before ++ "/bin/sh " ++ shellQuote remote ++ scriptEnd (shellQuote remote)) = some (bares ws ++ scriptTokens remote) := by
  refine @tokens_render _ _ (fun _ => remote) _ _ _ h ?_ ?_
  · unfold scriptEnd
    simp only [render, String.append_assoc]
  · simp only [List.map_append, fill_bares, fill_ops, fill_holes, scriptTokens]

/-- What words stand for. -/
def Says (ts : List Token) (ws : List String) : Prop := ts.mapM Token.field = some (ws.map String.toList)

theorem Says.append {ts' : List Token} {ws ws' : List String} (h : Says ts ws) (h' : Says ts' ws') : Says (ts ++ ts') (ws ++ ws') := by
  rw [Says, List.mapM_append, h, h', List.map_append]
  rfl

theorem says_value (s : String) : Says (value s) [s] := by
  rw [Says, value, List.mapM_cons, field_literal]
  rfl

theorem says_bares {ws : List String} (h : ∀ w ∈ ws, ∀ c ∈ w.toList, c ∉ special) : Says (bares ws) ws := by
  induction ws with
  | nil => rfl
  | cons w ws ih =>
    obtain ⟨hw, hws⟩ := List.forall_mem_cons.mp h
    have hrest := ih hws
    rw [Says, bares] at hrest
    rw [Says, bares, List.map_cons, List.mapM_cons, field_bare hw, hrest]
    rfl

/-- A command that begins with words of its own. -/
theorem first_bares (w : String) (ws : List String) (rest : List Token) (h : (bare w.toList).isReserved = false) :
    (bares (w :: ws) ++ rest).head?.any Token.isReserved = false := h

theorem says_leading (c : Connection) : Says (bares (sudoWords c)) (sudoWords c) := (sudo_words.1 _ (leading_words c)).2.1

/-- The words of a command that is one, by its tokens. -/
theorem words_of_tokens {ws : List String} (h : shellTokens text = some ts) (hfirst : ts.head?.any Token.isReserved = false)
    (hwords : Says ts ws) : shellWords text = some ws := by
  rw [shellTokens] at h
  rw [shellWords, fields, h, Option.bind_some, hfirst, if_neg Bool.false_ne_true, hwords, Option.map_some, List.map_map]
  have hid : String.ofList ∘ String.toList = id := funext fun _ => String.ofList_toList
  rw [hid, List.map_id]

theorem words_privileged {ws : List String} (h : shellTokens command = some ts) (hfirst : ts.head?.any Token.isReserved = false)
    (hwords : Says ts ws) : shellWords (privilegedCommand c command) = some (sudoWords c ++ ws) := by
  refine words_of_tokens (tokens_privileged h) ?_ ((says_leading c).append hwords)
  have hsudo := (sudo_words.1 _ (leading_words c)).2.2
  cases hw : sudoWords c with
  | nil => exact hfirst
  | cons w others =>
    rw [hw] at hsudo
    exact hsudo

theorem argv_words (c : Connection) (argv : List String) : shellWords (privilegedArgvCommand c argv) = some (sudoWords c ++ argv) := by
  have hjoined : (" ".intercalate (argv.map shellQuote)).toList = [' '].intercalate ((argv.map String.toList).map quote) := by
    rw [String.toList_intercalate, List.map_map, List.map_map]
    refine congrArg (List.intercalate _) (List.map_congr_left fun a _ => ?_)
    exact toList_shellQuote a
  have htokens : shellTokens (" ".intercalate (argv.map shellQuote)) = some ((argv.map String.toList).map literal) := by
    rw [shellTokens, hjoined, tokens_quoted]
  refine words_privileged htokens ?_ (fields_literal _)
  cases argv with
  | nil => rfl
  | cons a argv => exact literal_unreserved _

/-- A script for a shell. -/
theorem script_value (script : String) : shellTokens ("sh -c " ++ shellQuote script) = some (bares ["sh", "-c"] ++ value script) := by
  refine @tokens_render _ _ (fun _ => script) _ _ _ template_tokens.1 ?_ ?_
  · simp only [render, String.append_empty]
  · simp only [List.map_append, fill_bares, fill_holes]

/-- A command with one value at its end. -/
theorem one_word (w : String) (ws : List String) (before last : String)
    (h : tokens (template [(before, 0)] "") = some (bares (w :: ws) ++ holeTokens 0))
    (hfirst : (bare w.toList).isReserved = false) (hplain : ∀ v ∈ w :: ws, ∀ ch ∈ v.toList, ch ∉ special) :
    shellWords (before ++ shellQuote last) = some (w :: ws ++ [last]) := by
  have htokens : shellTokens (before ++ shellQuote last) = some (bares (w :: ws) ++ value last) := by
    refine @tokens_render _ _ (fun _ => last) _ _ _ h ?_ ?_
    · simp only [render, String.append_empty]
    · simp only [List.map_append, fill_bares, fill_holes]
  exact words_of_tokens htokens (first_bares w _ _ hfirst) ((says_bares hplain).append (says_value _))

theorem wifi_words (site : Site) (settings : WifiSettings) (ssidHex marker : String) :
    shellWords (privilegedStdinCommand c (wifiCommand site settings ssidHex marker)) =
      some (sudoWords c ++ ["sh", "-eu", "-c", site.wifiScript, "sh", ssidHex, yesNo settings.connect,
        yesNo settings.preserveExistingProfiles, marker, settings.ssid]) := by
  have htokens : shellTokens (wifiCommand site settings ssidHex marker) = some (bares ["sh", "-eu", "-c"] ++ (value site.wifiScript ++
      (bares ["sh"] ++ (value ssidHex ++ (value (yesNo settings.connect) ++ (value (yesNo settings.preserveExistingProfiles) ++
        (value marker ++ value settings.ssid))))))) := by
    refine @tokens_render _ _ (fun i => [site.wifiScript, ssidHex, yesNo settings.connect, yesNo settings.preserveExistingProfiles,
      marker, settings.ssid].getD i "") _ _ _ template_tokens.2.1 ?_ ?_
    · unfold wifiCommand
      simp only [render, String.append_assoc, String.append_empty, List.getD_cons_zero, List.getD_cons_succ]
    · simp only [List.map_append, fill_bares, fill_holes, List.getD_cons_zero, List.getD_cons_succ]
  obtain ⟨-, hreserved, hplain⟩ := sudo_words
  refine words_privileged htokens (first_bares "sh" _ _ hreserved) ?_
  exact (says_bares hplain).append ((says_value _).append ((says_bares fun w hw => hplain w (List.mem_cons.mpr (.inl (List.mem_singleton.mp hw)))).append ((says_value _).append
    ((says_value _).append ((says_value _).append ((says_value _).append (says_value _)))))))

theorem upload_tokens (remote : String) : shellTokens (shellUploadCommand remote) =
    some (bares ["umask", "077"] ++ op "&&" ++ bares ["cat"] ++ op ">" ++ value remote) := by
  refine @tokens_render _ _ (fun _ => remote) _ _ _ template_tokens.2.2.1 ?_ ?_
  · unfold shellUploadCommand
    simp only [render, String.append_empty]
  · simp only [List.map_append, fill_bares, fill_ops, fill_holes]

theorem install_tokens (c : Connection) (directory : String) : shellTokens (installCommand c directory) =
    some (bares ["chmod", "+x"] ++ executablePaths.flatMap (fun path => value (directory ++ "/" ++ path)) ++ op "&&" ++
      bares (sudoWords c ++ ["sh", "-c"]) ++ value ("printf 'n\\n' | " ++ shellQuote (directory ++ "/deploy/host/install.sh"))) := by
  have hfilled : Shell.run .blank (chars (render (fun i => directory ++ "/" ++ executablePaths.getD i "")
      [("chmod +x" ++ " ", 0), (" ", 1), (" ", 2), (" ", 3), (" ", 4), (" ", 5), (" ", 6), (" ", 7), (" ", 8)] " && ").toList) =
      some ((bares ["chmod", "+x"] ++ (List.range 9).flatMap holeTokens ++ op "&&").map
        (Token.fill fun i => (directory ++ "/" ++ executablePaths.getD i "").toList), .blank) := by
    rw [render_template]
    exact run_fill template_tokens.2.2.2
  have hlast := tokens_privileged (c := c)
    (script_value ("printf 'n\\n' | " ++ shellQuote (directory ++ "/deploy/host/install.sh")))
  have htext : installCommand c directory = render (fun i => directory ++ "/" ++ executablePaths.getD i "")
      [("chmod +x" ++ " ", 0), (" ", 1), (" ", 2), (" ", 3), (" ", 4), (" ", 5), (" ", 6), (" ", 7), (" ", 8)] " && " ++
        privilegedCommand c ("sh -c " ++ shellQuote ("printf 'n\\n' | " ++ shellQuote (directory ++ "/deploy/host/install.sh"))) := by
    unfold installCommand executablePaths
    simp only [List.map_cons, List.map_nil, String.intercalate_cons_cons, String.intercalate_singleton, render, String.append_assoc,
      List.getD_cons_zero, List.getD_cons_succ]
  have hpaths : ((List.range 9).flatMap holeTokens).map (Token.fill fun i => (directory ++ "/" ++ executablePaths.getD i "").toList) =
      executablePaths.flatMap fun path => value (directory ++ "/" ++ path) := by
    have hall : executablePaths = (List.range 9).map fun i => executablePaths.getD i "" := rfl
    conv_rhs => rw [hall, List.flatMap_map]
    rw [List.map_flatMap]
    refine congrArg (List.flatMap · _) ?_
    funext i
    exact fill_holes i
  rw [shellTokens, tokens] at hlast
  rw [shellTokens, tokens, htext, String.toList_append, chars_append, lex_append hfilled, hlast, Option.map_some, List.map_append,
    List.map_append, hpaths, fill_bares, fill_ops, bares_append]
  simp only [List.append_assoc]

end QuotingLemmas

open QuotingLemmas

/-- Every value is one word of its own, or in one that is a script, in every shell that reads the command. -/
theorem quoting_exact (site : Site) (c : Connection) : Quoted site c where
  argv := argv_words c
  rename remote := words_privileged (script_value _) (first_bares "sh" _ _ (by decide +kernel))
    ((says_bares (by decide +kernel)).append (says_value _))
  renameScript remote := by
    have h := script_tokens "" remote [] (by decide +kernel)
    rwa [String.empty_append] at h
  wifi := wifi_words site
  upload := upload_tokens
  install := install_tokens c
  installScript installer := by
    have h : tokens (template [("printf 'n\\n' | ", 0)] "") = some (bares ["printf"] ++ value "n\\n" ++ op "|" ++ holeTokens 0) := by
      decide +kernel
    refine @tokens_render _ _ (fun _ => installer) _ _ _ h ?_ ?_
    · simp only [render, String.append_empty]
    · simp only [List.map_append, fill_bares, fill_ops, fill_value, fill_holes]
  setup remote := by
    have h := script_tokens "" remote [] (by decide +kernel)
    rwa [String.empty_append] at h
  bootstrap remote := by
    intro e he
    simp only [List.mem_cons, List.not_mem_nil, or_false] at he
    rcases he with rfl | rfl | rfl
    · exact script_tokens " " remote [] (by decide +kernel)
    · exact script_tokens ("sudo -S -p ''" ++ " ") remote ["sudo", "-S", "-p", ""] (by decide +kernel)
    · exact script_tokens ("doas" ++ " ") remote ["doas"] (by decide +kernel)
  substitute remote := by
    have h : tokens (template [("stty -echo; printf '" ++ bootstrapPasswordReady ++ "\\n'; su -c ", 0),
        ("; rc=$?; stty echo; rm -f -- ", 1)] "; exit $rc") = some (bares ["stty", "-echo"] ++ op ";" ++ bares ["printf"] ++
        value (bootstrapPasswordReady ++ "\\n") ++ op ";" ++ bares ["su", "-c"] ++ holeTokens 0 ++ op ";" ++ bares ["rc=$?"] ++ op ";" ++
        bares ["stty", "echo"] ++ op ";" ++ bares ["rm", "-f", "--"] ++ holeTokens 1 ++ op ";" ++ bares ["exit", "$rc"]) := by
      decide +kernel
    refine @tokens_render _ _ (fun i => ["/bin/sh " ++ shellQuote remote, remote].getD i "") _ _ _ h ?_ ?_
    · simp only [render, String.append_assoc, List.getD_cons_zero, List.getD_cons_succ]
    · simp only [List.map_append, fill_bares, fill_ops, fill_value, fill_holes, List.getD_cons_zero, List.getD_cons_succ]
  substituteScript remote := one_word "/bin/sh" [] "/bin/sh " remote (by decide +kernel) (by decide +kernel) (by decide +kernel)
  directory directory := by
    have h : tokens (template [("install -d -m 755 -o \"$(id -u)\" -g \"$(id -g)\" ", 0)] "") =
        some (bares ["install", "-d", "-m", "755", "-o"] ++ expanded "$(id -u)" ++ bares ["-g"] ++ expanded "$(id -g)" ++
          holeTokens 0) := by
      decide +kernel
    refine tokens_privileged (@tokens_render _ _ (fun _ => directory) _ _ _ h ?_ ?_)
    · simp only [render, String.append_empty]
    · simp only [List.map_append, fill_bares, fill_expanded, fill_holes]
  recover directory := by
    have h : tokens (template [("if [ -x ", 0), (" ] && [ -f ", 1), (" ]; then ", 0), (" recover ", 2), (" ", 1),
        ("; fi; if [ -x ", 3), (" ]; then ", 3), (" recover ", 2)] "; fi") =
        some (bares ["if", "[", "-x"] ++ holeTokens 0 ++ bares ["]"] ++ op "&&" ++ bares ["[", "-f"] ++ holeTokens 1 ++ bares ["]"] ++
          op ";" ++ bares ["then"] ++ holeTokens 0 ++ bares ["recover"] ++ holeTokens 2 ++ holeTokens 1 ++ op ";" ++ bares ["fi"] ++
          op ";" ++ bares ["if", "[", "-x"] ++ holeTokens 3 ++ bares ["]"] ++ op ";" ++ bares ["then"] ++ holeTokens 3 ++
          bares ["recover"] ++ holeTokens 2 ++ op ";" ++ bares ["fi"]) := by
      decide +kernel
    refine @tokens_render _ _ (fun i => [directory ++ "/deploy-transaction.sh", directory ++ "/deploy-artifacts.txt", directory,
      directory ++ "/deploy/transaction.sh"].getD i "") _ _ _ h ?_ ?_
    · unfold recoverCommand
      simp only [render, String.append_assoc, List.getD_cons_zero, List.getD_cons_succ]
    · simp only [List.map_append, fill_bares, fill_ops, fill_holes, List.getD_cons_zero, List.getD_cons_succ]
  staging root stage := by
    have h : tokens (template [("if [ -L ", 0), (" ] || \x7b [ -e ", 0), (" ] && [ ! -d ", 0),
        (" ]; \x7d; then exit 14; fi; install -d -m 700 -- ", 0), ("; mkdir -- ", 1)] "") =
        some (bares ["if", "[", "-L"] ++ holeTokens 0 ++ bares ["]"] ++ op "||" ++ bares ["\x7b", "[", "-e"] ++ holeTokens 0 ++
          bares ["]"] ++ op "&&" ++ bares ["[", "!", "-d"] ++ holeTokens 0 ++ bares ["]"] ++ op ";" ++ bares ["\x7d"] ++ op ";" ++
          bares ["then", "exit", "14"] ++ op ";" ++ bares ["fi"] ++ op ";" ++ bares ["install", "-d", "-m", "700", "--"] ++
          holeTokens 0 ++ op ";" ++ bares ["mkdir", "--"] ++ holeTokens 1) := by
      decide +kernel
    refine @tokens_render _ _ (fun i => [root, stage].getD i "") _ _ _ h ?_ ?_
    · unfold stagingCommand
      simp only [render, String.append_assoc, String.append_empty, List.getD_cons_zero, List.getD_cons_succ]
    · simp only [List.map_append, fill_bares, fill_ops, fill_holes, List.getD_cons_zero, List.getD_cons_succ]
  parent path := one_word "mkdir" ["-p", "--"] "mkdir -p -- " path (by decide +kernel) (by decide +kernel) (by decide +kernel)
  checksum path := one_word "sha256sum" ["--"] "sha256sum -- " path (by decide +kernel) (by decide +kernel) (by decide +kernel)
  promote script directory token manifest := by
    have h : tokens (template [("bash ", 0), (" promote ", 1), (" ", 2), (" ", 3)] "") =
        some (bares ["bash"] ++ (holeTokens 0 ++ (bares ["promote"] ++ (holeTokens 1 ++ (holeTokens 2 ++ holeTokens 3))))) := by
      decide +kernel
    have htokens : shellTokens ("bash " ++ shellQuote script ++ " promote " ++ shellQuote directory ++ " " ++ shellQuote token ++ " " ++
        shellQuote manifest) = some (bares ["bash"] ++ (value script ++ (bares ["promote"] ++ (value directory ++ (value token ++
          value manifest))))) := by
      refine @tokens_render _ _ (fun i => [script, directory, token, manifest].getD i "") _ _ _ h ?_ ?_
      · simp only [render, String.append_assoc, String.append_empty, List.getD_cons_zero, List.getD_cons_succ]
      · simp only [List.map_append, fill_bares, fill_holes, List.getD_cons_zero, List.getD_cons_succ]
    exact words_of_tokens htokens (first_bares "bash" _ _ (by decide +kernel)) ((says_bares (by decide +kernel)).append
      ((says_value _).append ((says_bares (by decide +kernel)).append ((says_value _).append ((says_value _).append (says_value _))))))
  remove stage := by
    have h : tokens (template [("if [ -d ", 0), (" ] && [ ! -L ", 0), (" ]; then find -P ", 0)] " -xdev -depth -delete; fi") =
        some (bares ["if", "[", "-d"] ++ holeTokens 0 ++ bares ["]"] ++ op "&&" ++ bares ["[", "!", "-L"] ++ holeTokens 0 ++ bares ["]"] ++
          op ";" ++ bares ["then", "find", "-P"] ++ holeTokens 0 ++ bares ["-xdev", "-depth", "-delete"] ++ op ";" ++ bares ["fi"]) := by
      decide +kernel
    refine @tokens_render _ _ (fun _ => stage) _ _ _ h ?_ ?_
    · simp only [render, String.append_assoc]
    · simp only [List.map_append, fill_bares, fill_ops, fill_holes]

end OmtClient.Deploy
