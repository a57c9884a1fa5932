import FastCrawl.Library.Scanner
import FastCrawl.Library.Mealy
import FastCrawl.Library.Decimal
import FastCrawl.Library.Adler
import FastCrawl.Library.Lifetime
import FastCrawl.Crawler.Tags
import FastCrawl.Crawler.Downloads
import FastCrawl.Crawler.Boundaries
import FastCrawl.Crawler.Comments
import FastCrawl.Crawler.LetterCase
import FastCrawl.Crawler.AttributeLists
import FastCrawl.Crawler.References
import FastCrawl.Crawler.ClosingTags
import FastCrawl.Crawler.SkippedTags
import FastCrawl.Crawler.Accuracy
import FastCrawl.Crawler.Download
import FastCrawl.Crawler.Requests
import FastCrawl.Crawler.Documents
import FastCrawl.Uri.Split
import FastCrawl.Uri.Roundtrip
import FastCrawl.ThreadPool.Wakeup
import FastCrawl.ThreadPool.Shutdown
import FastCrawl.ThreadPool.Limit
import FastCrawl.ThreadPool.Growth
import FastCrawl.ThreadPool.Destruction
import FastCrawl.ThreadPool.Deadlock
import FastCrawl.ThreadPool.Refusal
import FastCrawl.ThreadPool.LockSafety
import FastCrawl.ThreadPool.Termination
import FastCrawl.Program.Files
import FastCrawl.Program.Reporting
import FastCrawl.Program.Pages
import FastCrawl.Program.Ending
import FastCrawl.Program.Stalling
