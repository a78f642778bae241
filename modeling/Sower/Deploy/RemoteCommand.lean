import Sower.Lib.ShellWords

/-!
# The command an SSH deployment sends

The command that runs the activator on the target is one text, which the login shell
there splits into words. The script, the request and the address for a download are put
into it in quotes.
-/

namespace Sower.Deploy

open ShellWords

section Command

/-- `REMOTE_SCRIPT`, line by line. -/
def remoteScriptLines : List String :=
  [
    "",
    "set -o errexit -o nounset -o pipefail",
    "request=$1",
    "download_base=$2",
    "download_error=$3",
    "if binary=$(command -v sower); then",
    "    case \"$binary\" in",
    "        /*) ;;",
    "        *) binary=\"$PWD/$binary\" ;;",
    "    esac",
    "else",
    "    if [ -n \"$download_error\" ]; then",
    "        printf '%s\\n' \"$download_error\" >&2",
    "        exit 1",
    "    fi",
    "    case \"$(uname --kernel-name)\" in",
    "        Linux) os=linux ;;",
    "        *) printf '%s\\n' 'Unsupported target operating system for sower download' >&2; exit 1 ;;",
    "    esac",
    "    case \"$(uname --machine)\" in",
    "        x86_64) arch=x86_64 ;;",
    "        aarch64|arm64) arch=aarch64 ;;",
    "        *) printf '%s\\n' 'Unsupported target architecture for sower download' >&2; exit 1 ;;",
    "    esac",
    "    tmp_dir=$(mktemp --directory)",
    "    trap 'rm --recursive --force -- \"$tmp_dir\"' EXIT",
    "    binary=\"$tmp_dir/sower\"",
    "    curl --fail --location --show-error --proto '=https' --proto-redir '=https' \\",
    "        --output \"$binary\" -- \"$\x7bdownload_base\x7d$\x7barch\x7d-$\x7bos\x7d\"",
    "    chmod u+x -- \"$binary\"",
    "fi",
    "printf '%s\\n' \"$request\" |",
    "    sudo --user=root -- /usr/bin/env \\",
    "        PATH=/run/current-system/sw/bin:/nix/var/nix/profiles/default/bin:/usr/sbin:/usr/bin:/sbin:/bin \\",
    "        \"$binary\" activator |",
    "    while IFS= read -r line; do",
    "        printf '\\036sower-activator\\037%s\\n' \"$line\"",
    "    done",
    ""
  ]

/-- `REMOTE_SCRIPT`. -/
def remoteScript : String := String.intercalate "\n" remoteScriptLines

/-- One character of a quoted text. -/
def quoteChar (c : Char) : List Char := if c = '\'' then ['\'', '\\', '\'', '\''] else [c]

/-- `shell_quote`. -/
def shellQuote (value : String) : String :=
  String.ofList ('\'' :: value.toList.flatMap quoteChar ++ ['\''])

/-- A parsed address, as far as it is looked at. -/
structure Url where
  text : String
  scheme : String
  hostStr : Option String
  username : String
  password : Option String
  query : Option String
  fragment : Option String
  deriving DecidableEq, Repr

/-- `u8::is_ascii_control` of a character's bytes. -/
def isAsciiControl (c : Char) : Bool := c.toNat < 32 || c.toNat == 127

/-- `trim_end_matches('/')`. -/
def trimEndSlashes (text : String) : String :=
  String.ofList (text.toList.reverse.dropWhile (· == '/')).reverse

/-- `download_base`. -/
def downloadBase (parse : String → Option Url) (endpoint : Option String) : Except String String :=
  match endpoint with
  | none => .error
      "sower is absent on the target; configure an HTTPS --endpoint for binary fallback"
  | some endpoint =>
    if endpoint.toList.any isAsciiControl then
      .error "binary fallback requires a valid HTTPS endpoint"
    else match parse endpoint with
      | none => .error "binary fallback requires a valid HTTPS endpoint"
      | some url =>
        if url.scheme ≠ "https" ∨ url.hostStr = none ∨ url.username ≠ "" ∨ url.password ≠ none ∨
            url.query ≠ none ∨ url.fragment ≠ none then
          .error
            "binary fallback requires an HTTPS endpoint without credentials, query, or fragment"
        else .ok (trimEndSlashes url.text ++ "/client/bin/")

/-- Address and error that the script is given. -/
def fallback (parse : String → Option Url) (endpoint : Option String) : String × String :=
  match downloadBase parse endpoint with
  | .ok base => (base, "")
  | .error error => ("", error)

/-- `remote_command`. -/
def remoteCommand (parse : String → Option Url) (request : String) (endpoint : Option String) :
    String :=
  "/usr/bin/env bash --noprofile --norc -c " ++ shellQuote remoteScript ++ " sower-sudo " ++
    shellQuote request ++ " " ++ shellQuote (fallback parse endpoint).1 ++ " " ++
      shellQuote (fallback parse endpoint).2

end Command

section Words

/-- A quoted text adds its characters to the word, whatever they are. -/
theorem run_quoteChars (text word : List Char) (words : List (List Char)) :
    Scan.run ⟨.single, some word, words⟩ (text.flatMap quoteChar) =
      some ⟨.single, some (word ++ text), words⟩ := by
  induction text generalizing word with
  | nil =>
    rw [List.append_nil]
    rfl
  | cons c rest ih =>
    have hchar : Scan.run ⟨.single, some word, words⟩ (quoteChar c) =
        some ⟨.single, some (word ++ [c]), words⟩ := by
      unfold quoteChar
      by_cases hquote : c = '\''
      · rw [if_pos hquote, run_quote rfl, hquote]
        rfl
      · rw [if_neg hquote, run_cons, step_single rfl hquote]
        rfl
    have hsplit : word ++ c :: rest = word ++ [c] ++ rest := by simp
    rw [List.flatMap_cons, run_append, hchar, hsplit]
    exact ih (word ++ [c])

/-- A quoted text is a word of its own, the text itself. -/
theorem run_shellQuote (value : String) (words : List (List Char)) :
    Scan.run ⟨.bare, none, words⟩ (shellQuote value).toList =
      some ⟨.bare, some value.toList, words⟩ := by
  unfold shellQuote
  rw [String.toList_ofList, List.cons_append, run_cons]
  change Scan.run ⟨.single, some [], words⟩ (value.toList.flatMap quoteChar ++ ['\'']) = _
  rw [run_append, run_quoteChars]
  rfl

/-- A blank ends the word before it. -/
theorem run_blank (word : List Char) (words : List (List Char)) :
    Scan.run ⟨.bare, some word, words⟩ " ".toList = some ⟨.bare, none, words ++ [word]⟩ := rfl

theorem run_command :
    Scan.run {} "/usr/bin/env bash --noprofile --norc -c ".toList =
      some ⟨.bare, none, ["/usr/bin/env".toList, "bash".toList, "--noprofile".toList,
        "--norc".toList, "-c".toList]⟩ := by
  decide +kernel

theorem run_name (word : List Char) (words : List (List Char)) :
    Scan.run ⟨.bare, some word, words⟩ " sower-sudo ".toList =
      some ⟨.bare, none, words ++ [word] ++ ["sower-sudo".toList]⟩ := rfl

/-- The words of a command that quotes these four texts. -/
theorem splitWords_command (script request base error : String) :
    splitWords ("/usr/bin/env bash --noprofile --norc -c " ++ shellQuote script ++
      " sower-sudo " ++ shellQuote request ++ " " ++ shellQuote base ++ " " ++ shellQuote error) =
      some ["/usr/bin/env", "bash", "--noprofile", "--norc", "-c", script, "sower-sudo", request,
        base, error] := by
  unfold splitWords
  simp only [String.toList_append, run_append, run_command, Option.bind_some, run_shellQuote,
    run_name, run_blank]
  unfold Scan.finish Scan.delimit
  simp [reserved]

/-- The login shell takes the command literally and splits it into the intended words,
whatever the request, the address and the error are. -/
theorem remote_command_words (parse : String → Option Url) (request : String)
    (endpoint : Option String) :
    splitWords (remoteCommand parse request endpoint) =
      some ["/usr/bin/env", "bash", "--noprofile", "--norc", "-c", remoteScript, "sower-sudo",
        request, (fallback parse endpoint).1, (fallback parse endpoint).2] :=
  splitWords_command remoteScript request _ _

end Words

end Sower.Deploy
