import ReleaseInstaller.Installer.Basic

/-! The parts of the installer that depend on the platform: which ones it accepts, and what the archive
for one is called. -/
namespace ReleaseInstaller.Installer

/-- An arm that tells whether a platform is accepted, where zero means yes. -/
def platformArm (found platform : String) : Line :=
  [.fixed "    ", .value platform, .fixed (") found=" ++ found ++ " ;;")]

/-- The excluded platforms come after the supported ones. -/
def platformCheck (i : Installer) : List Line :=
  fixed [
    "is_supported_platform() \x7b",
    "  platform=$1",
    "  found=1"] ++
  caseOf "\"$platform\"" (i.supported.map (platformArm "0")) ++
  optionalCaseOf "\"$platform\"" (i.excluded.map (platformArm "1")) ++
  fixed [
    "  return $found",
    "\x7d"]

/-- Refusal of other platforms, and the version to install. -/
def release : List Line :=
  fixed [
    "check_platform() \x7b",
    "  if is_supported_platform \"$PLATFORM\"; then",
    "    # optional logging goes here",
    "    true",
    "  else",
    "    log_crit \"platform $PLATFORM is not supported.  Make sure this script is up-to-date and file request at https://github.com/$\x7bPREFIX\x7d/issues/new\"",
    "    exit 1",
    "  fi",
    "\x7d",
    "tag_to_version() \x7b",
    "  if [ -z \"$\x7bTAG\x7d\" ]; then",
    "    log_info \"checking GitHub for latest tag\"",
    "  else",
    "    log_info \"checking GitHub for tag '$\x7bTAG\x7d'\"",
    "  fi",
    "  REALTAG=$(github_release \"$OWNER/$REPO\" \"$\x7bTAG\x7d\") && true",
    "  if test -z \"$REALTAG\"; then",
    "    log_crit \"unable to find '$\x7bTAG\x7d' - use 'latest' or see https://github.com/$\x7bPREFIX\x7d/releases for details\"",
    "    exit 1",
    "  fi",
    "  # if version starts with 'v', remove it",
    "  TAG=\"$REALTAG\"",
    "  VERSION=$\x7bTAG#v\x7d",
    "\x7d"]

def assignmentArm (name : String) (a : Arm) : Line :=
  [.fixed "    ", .value a.pattern, .fixed (") " ++ name ++ "="), .value a.value, .fixed " ;;"]

/-- A function that changes a variable by the arms for a subject. -/
def adjustment (opening : List String) (subject name : String) (arms : List Arm) : List Line :=
  fixed opening ++ optionalCaseOf subject (arms.map (assignmentArm name)) ++
    fixed ["  true", "\x7d"]

def adjustments (i : Installer) : List Line :=
  adjustment [
    "adjust_format() \x7b",
    "  # change format (tar.gz or zip) based on OS"]
    "$\x7bOS\x7d" "FORMAT" i.formatOverrides ++
  adjustment [
    "adjust_os() \x7b",
    "  # adjust archive name based on OS"]
    "$\x7bOS\x7d" "OS" i.replacements ++
  adjustment [
    "adjust_arch() \x7b",
    "  # adjust archive name based on ARCH"]
    "$\x7bARCH\x7d" "ARCH" i.replacements

end ReleaseInstaller.Installer
