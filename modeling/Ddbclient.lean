import Ddbclient.Client.Encoding
import Ddbclient.Client.ReadBack
import Ddbclient.Client.RowLimit
import Ddbclient.Cmdline.Text
import Ddbclient.Cmdline.Usage
import Ddbclient.ClientMain.Completion
import Ddbclient.ClientMain.Dialogue
import Ddbclient.ClientMain.LineHistory
import Ddbclient.ClientMain.Requests
import Ddbclient.ClientMain.Runs
import Ddbclient.ClientMain.Secrecy
import Ddbclient.ClientMain.Width
import Ddbclient.CommandHistory.Navigation
import Ddbclient.CommandHistory.Parallel
import Ddbclient.CommandHistory.Store
