import ErbLayout.Text.Basic

/-!
The screen that explains how the formatter is called.
-/

namespace ErbLayout.Session

def usage : Text :=
  "erbfmt v0.1.0 - ERB template formatter

Formats HTML templates with embedded Ruby (.html.erb).

Usage:
  erbfmt [OPTIONS] <FILE>...
  erbfmt [OPTIONS] -r <DIRECTORY>
  erbfmt [OPTIONS] --stdin-filename <PATH> < file.html.erb
  cat file.html.erb | erbfmt

Examples:
  erbfmt index.html.erb           # Print the formatted file
  erbfmt -w app/views/*.erb       # Format files in place
  erbfmt -w -r app/views          # Recursively format a directory
  erbfmt -l 100 index.html.erb    # Use a 100-column line width

Options:
  -w, --write                     Write formatted output back to the files
  --stdin                         Read the document from stdin
  --stdin-filename <PATH>         Name of the stdin document (implies --stdin)
  -l, --line-width <NUM>          Max line width [default: 80]
  --single-class-per-line         One class per line when a class is split
  --code-formatter <CMD>          Command formatting embedded Ruby
  -c, --config <FILE>             Config file path (overrides auto-discovery)
  -r, --recursive                 Process directories recursively
  -e, --exclude <PATTERN>         Exclude files/dirs matching pattern (repeatable)
  -j, --jobs <NUM>                Parallel jobs with --write (0=auto, 1=sequential)
  -D, --debug                     Enable debug output
  -S, --silent                    Silent mode
  -h, --help                      Print help

Files listed in .format-erb-ignore (one glob per line) are left untouched.

Config file auto-discovery:
  Searches for erbfmt.toml in parent directories
  starting from the file being formatted up to the root directory.
  Also checks erbfmt.toml in the home directory.
  More specific configs (closer to file) override less specific ones.
".toList

end ErbLayout.Session
