/-!
# Help
-/
namespace CssHighlight.CommandLine

def usageLine : String := "Usage: css-scanner [OPTIONS] FILEPATH\n"

def helpHint : String := "Try 'css-scanner --help' for help.\n"

def versionText : String := "css-scanner, version 0.1.0\n"

def helpText : String := usageLine ++ "
  Entry point for scanning a stylesheet.

  Args:     filepath: Path to the stylesheet to scan.     dialect: Override for
  the stylesheet dialect.     fold: Override for fold level computation.
  output_format: `tokens` for style runs, `lines` for per-line data.
  keywords_file: TOML file replacing the built-in keyword lists.     verbose:
  Enable debug logging.

  Returns:     None.

  Raises:     click.BadParameter: If the path or configuration values are
  invalid.     click.ClickException: If the file or keyword file cannot be read.

  Examples:     css-scanner site.scss --format lines

Options:
  --version                       Show the version and exit.
  --dialect [standard|scss|less|hss]
                                  Stylesheet dialect (defaults to the file
                                  extension)
  --fold / --no-fold              Compute fold levels
  --format [tokens|lines]         Print style runs or per-line fold levels and
                                  line states  [default: tokens]
  --keywords FILE                 TOML file with keyword lists
  -v, --verbose                   Log scanner debug output
  --help                          Show this message and exit.
"

end CssHighlight.CommandLine
