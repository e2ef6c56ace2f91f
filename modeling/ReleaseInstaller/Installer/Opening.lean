import ReleaseInstaller.Installer.Basic

/-! The installer up to the installation of the binaries. -/
namespace ReleaseInstaller.Installer

/-- The date in the heading; an empty date is left out. -/
def dated : Option String → Line
  | some date => if date.isEmpty then [] else [.fixed " on ", .value date]
  | none => []

def heading (i : Installer) : List Line :=
  fixed [
    "#!/bin/sh",
    "set -e"] ++
  [[.fixed "# Code generated by binfetch ", .value i.version] ++ dated i.generatedAt ++
    [.fixed ". DO NOT EDIT."]] ++
  fixed [
    "#",
    ""]

def usage (i : Installer) : List Line :=
  fixed [
    "usage() \x7b",
    "  this=$1",
    "  cat <<EOF"] ++
  [[.fixed "$this: download prebuilt binaries for ", .value i.owner, .fixed "/", .value i.repo]] ++
  fixed [
    "",
    "Usage: $this [-b] bindir [-d] [tag]",
    "  -b sets bindir or installation directory, Defaults to ./bin",
    "  -d turns on debug logging",
    "   [tag] is a tag from"] ++
  [[.fixed "   ", .value i.repoUrl, .fixed "/releases"]] ++
  fixed [
    "   If tag is missing, then the latest will be used.",
    "",
    " Generated by binfetch",
    "  https://github.com/binfetch/binfetch",
    "",
    "EOF",
    "  exit 2",
    "\x7d",
    ""]

def arguments : List Line :=
  fixed [
    "parse_args() \x7b",
    "  # BINDIR is ./bin unless set by ENV",
    "  # over-ridden by flag below",
    "",
    "  BINDIR=$\x7bBINDIR:-./bin\x7d",
    "  while getopts \"b:dh?\" arg; do",
    "    case \"$arg\" in",
    "      b) BINDIR=\"$OPTARG\" ;;",
    "      d) log_set_priority 10 ;;",
    "      h | \\?) usage \"$0\" ;;",
    "      *) usage \"$0\" ;;",
    "    esac",
    "  done",
    "  shift $((OPTIND - 1))",
    "  TAG=$1",
    "\x7d"]

/-- The directory inside the archive that holds the binaries. -/
def sourceDirectory (wrapped : Bool) : List Line :=
  if wrapped then
    fixed [
      "  srcdir=\"$\x7btmpdir\x7d/$\x7bNAME\x7d\"",
      "  rm -rf \"$\x7bsrcdir\x7d\""]
  else
    fixed [
      "  srcdir=\"$\x7btmpdir\x7d\""]

/-- The line that goes through the binaries. -/
def binaryLoop (binaries : List String) : Line :=
  [.fixed "  for binexe in "] ++
    (binaries.flatMap fun b => [.fixed "\"", .value b, .fixed "\" "]) ++ [.fixed "; do"]

def download : List String := [
  "# this function wraps all the destructive operations",
  "# if a curl|bash cuts off the end of the script due to",
  "# network, either nothing will happen or will syntax error",
  "# out preventing half-done work",
  "execute() \x7b",
  "  tmpdir=$(mktmpdir)",
  "  log_debug \"downloading files into $\x7btmpdir\x7d\"",
  "  http_download \"$\x7btmpdir\x7d/$\x7bTARBALL\x7d\" \"$\x7bTARBALL_URL\x7d\"",
  "  http_download \"$\x7btmpdir\x7d/$\x7bCHECKSUM\x7d\" \"$\x7bCHECKSUM_URL\x7d\"",
  "  hash_sha256_verify \"$\x7btmpdir\x7d/$\x7bTARBALL\x7d\" \"$\x7btmpdir\x7d/$\x7bCHECKSUM\x7d\""]

def extraction : List String := [
  "  (cd \"$\x7btmpdir\x7d\" && untar \"$\x7bTARBALL\x7d\")",
  "  test ! -d \"$\x7bBINDIR\x7d\" && install -d \"$\x7bBINDIR\x7d\""]

/-- What is done with each binary, and the end. -/
def installation : List String := [
  "    case \"$PLATFORM\" in",
  "      windows/*) binexe=\"$\x7bbinexe\x7d.exe\" ;;",
  "    esac",
  "    install \"$\x7bsrcdir\x7d/$\x7bbinexe\x7d\" \"$\x7bBINDIR\x7d/\"",
  "    log_info \"installed $\x7bBINDIR\x7d/$\x7bbinexe\x7d\"",
  "  done",
  "  rm -rf \"$\x7btmpdir\x7d\"",
  "\x7d"]

/-- Download, verification and installation. -/
def execution (i : Installer) : List Line :=
  fixed download ++ sourceDirectory i.wrapInDirectory ++ fixed extraction ++
    [binaryLoop i.binaries] ++ fixed installation

end ReleaseInstaller.Installer
