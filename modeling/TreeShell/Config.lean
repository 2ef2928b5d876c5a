import TreeShell.Environment

/-!
# Configuration

What a session knows about the host and about the way it was started. It is gathered once, before
the first line is read, and nothing that happens in a session changes it.
-/

namespace TreeShell

/-- The settings of a session. -/
structure Config where
  /-- The user, as the prompt shows it. -/
  username : String
  /-- The host, as the prompt shows it. -/
  hostname : String
  /-- The working directory on the host. -/
  cwd : String
  /-- The home directory on the host. -/
  home : String
  /-- The document that the tree is read from. -/
  documentPath : Option String := none
  /-- The script that is replayed before the first line. -/
  startupScript : Option String := none
  /-- Whether the configuration is reported when the session starts. -/
  debug : Bool := false
  /-- The variables that lines may refer to. -/
  env : Environment := []

namespace Config

/-- The configuration that an environment gives: the user is named by `USER`, or else by `LOGNAME`,
or else by the number `uid`; the home directory is `HOME`, or else the root. -/
def ofEnvironment (env : Environment) (hostname cwd uid : String) : Config where
  username := ((env.value? "USER").or (env.value? "LOGNAME")).getD uid
  hostname := hostname
  cwd := cwd
  home := (env.value? "HOME").getD "/"
  env := env

/-- Writes a path below the home directory with `~` in the place of the home directory. Nothing is
abbreviated when the home directory is empty or the root. -/
def abbreviateHome (path home : String) : String :=
  if home = "" ∨ home = "/" then path
  else if path = home then "~"
  else
    let below := path.toList.drop home.length
    if home.toList.isPrefixOf path.toList ∧ below.head? = some '/' then "~" ++ String.ofList below
    else path

/-- The working directory on the host, abbreviated. -/
def displayCwd (config : Config) : String := abbreviateHome config.cwd config.home

/-- The settings, one `key=value` line each. -/
def dump (config : Config) : String :=
  let line key value := key ++ "=" ++ value ++ "\n"
  line "username" config.username ++ line "hostname" config.hostname ++ line "cwd" config.cwd ++
    line "home" config.home ++ line "vfs_path" (config.documentPath.getD "<none>") ++
    line "startup_script" (config.startupScript.getD "<none>") ++
    line "debug" (if config.debug then "true" else "false")

end Config

end TreeShell
